import SecurityScan.Json.Wire

namespace SecurityScan

/-!
# Severity

* `Severity` — how bad a finding is;
* `Severity.worst?` — the worst of a list.
-/

/-- How bad a finding is. -/
inductive Severity where
  | high | medium | low
deriving DecidableEq, Repr, Inhabited

namespace Severity

/-- The word for a severity. -/
def name : Severity → String
  | .high => "high"
  | .medium => "medium"
  | .low => "low"

/-- All severities, the worst first. -/
def all : List Severity := [.high, .medium, .low]

/-- The place of a severity, counted from the worst. -/
def rank : Severity → Nat
  | .high => 0
  | .medium => 1
  | .low => 2

/-- The worse of two severities. -/
def worse (a b : Severity) : Severity := if b.rank < a.rank then b else a

/-- The worst severity of a list; none if the list is empty. -/
def worst? : List Severity → Option Severity
  | [] => none
  | s :: rest => some (rest.foldl worse s)

instance : Wire Severity where
  encode s := .str s.name
  decode? := Wire.oneOf? name all

end Severity

end SecurityScan
