import SecurityScan.Text.Search
import SecurityScan.Config.Setting

namespace SecurityScan

open Decimal

/-!
# Settings in the environment

A variable named `SCANLAB__SERVER__PORT`, in any mixture of cases, sets `server.port`.

* `Environment` — variables and their values;
* `Setting.ofVariable` — what the value of a variable says: a boolean, a number or a text; a list for
  the names that hold lists;
* `Environment.settings` — the variables that are settings, as a source.
-/

/-- Variables with their values. -/
abbrev Environment := List (String × String)

/-- The start of the names of variables that are settings. -/
def settingLead : String := "scanlab__"

/-- What stands between the names of a section and of its field. -/
def settingSeparator : String := "__"

/-- The settings whose values are lists. -/
def listSettings : List String :=
  ["server.allowed_origins", "api_security.enabled_analyzers", "api_security.exclude_paths"]

namespace Setting

/-- An integer that fits a signed word of 64 bits, perhaps with a sign in front. -/
def signed? (cs : List Char) : Option Int :=
  let i : Option Int := match cs with
    | '-' :: ds => (natIn? 10 ds).map fun n => -(n : Int)
    | '+' :: ds => (natIn? 10 ds).map fun n => (n : Int)
    | ds => (natIn? 10 ds).map fun n => (n : Int)
  i.filter fun i => -(Int.pow 2 63) ≤ i && i < Int.pow 2 63

/-- A decimal, or a word for infinity or NaN, perhaps with a sign in front. -/
def float? (cs : List Char) : Option Float :=
  let (negative, rest) := match cs with
    | '-' :: rest => (true, rest)
    | '+' :: rest => (false, rest)
    | rest => (false, rest)
  let word := String.ofList rest
  if ["inf", "infinity"].any (Text.sameWord word) then
    some (if negative then -infinity else infinity)
  else if Text.sameWord word "nan" then some (0.0 / 0.0)
  else decimal? cs

/-- What the value of a variable says, given the name of the setting. -/
def ofVariable (name value : String) : Setting :=
  if Text.sameWord value "true" then .bool true
  else if Text.sameWord value "false" then .bool false
  else match signed? value.toList, float? value.toList with
    | some i, _ => .int i
    | none, some x => .float x
    | none, none =>
      if listSettings.contains name then
        .list ((Text.splitAt ',' value.toList).map fun piece => .text (String.ofList piece))
      else .text value

end Setting

/-- The setting that a variable names, if it names one. -/
def settingName? (name : String) : Option String := do
  let rest ← Text.strip? settingLead.toList (Text.foldCase name.toList)
  return String.ofList (Text.replaceAll settingSeparator.toList ['.'] rest)

/-- The variables that are settings.  Of two that name the same setting the later one counts. -/
def Environment.settings (env : Environment) : Settings :=
  env.foldl
    (fun es p => match settingName? p.1 with
      | some name => Setting.put es name (Setting.ofVariable name p.2)
      | none => es)
    []

end SecurityScan
