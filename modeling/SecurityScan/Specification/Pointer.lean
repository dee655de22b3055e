import SecurityScan.Json.Basic
import SecurityScan.Decimal.Reading
import SecurityScan.Text.Blank

namespace SecurityScan

open Decimal

/-!
# Pointers into a document

A pointer is the empty text, which stands for the root, or a list of steps each written after a
slash.  In a step `~1` stands for a slash and `~0` for a tilde.

* `Pointer` — the steps; `Pointer.parse?` reads them;
* `itemIndex?` — the index of an array item: digits without a leading zero;
* `Json.follow?` — the value a pointer leads to.
-/

/-- The steps of a pointer. -/
abbrev Pointer := List String

/-- A step without its escapes; a tilde that starts none stands for itself. -/
def Pointer.unescape : List Char → List Char
  | '~' :: '1' :: cs => '/' :: unescape cs
  | '~' :: '0' :: cs => '~' :: unescape cs
  | c :: cs => c :: unescape cs
  | [] => []

/-- The steps of a text; none if it is not empty and does not start with a slash. -/
def Pointer.parse? (s : String) : Option Pointer :=
  match s.toList with
  | [] => some []
  | '/' :: cs => some ((Text.splitAt '/' cs).map fun step => String.ofList (unescape step))
  | _ => none

/-- The index that a step names in an array. -/
def itemIndex? (step : String) : Option Nat :=
  let ds := step.toList
  if !ds.isEmpty && ds.all Char.isDigit && (ds.length == 1 || ds.head? != some '0') then
    some (value ds)
  else none

/-- One step down. -/
def Json.child? (v : Json) (step : String) : Option Json :=
  match v with
  | .obj ms => Members.get? ms step
  | .arr vs => (itemIndex? step).bind (vs[·]?)
  | _ => none

/-- The value a pointer leads to. -/
def Json.follow? (v : Json) : Pointer → Option Json
  | [] => some v
  | step :: rest => (v.child? step).bind (·.follow? rest)

/-- The value at a pointer's text. -/
def Json.pointer? (v : Json) (s : String) : Option Json := (Pointer.parse? s).bind v.follow?

end SecurityScan
