import SecurityScan.Json.Basic
import SecurityScan.Decimal.Reading

namespace SecurityScan

open Decimal

/-!
# A document as the rules see it

Rules do not trust the shape of a document: a key that is not there has no value, and a value of the
wrong kind has no entries and no items.

* `Json.at?` — the value at the end of a path of keys;
* `Json.isTruthy` and `declared` — what counts as a declaration;
* `arrayIndex?` and `keyLe` — keys that are array indices come first, in ascending order;
* `Json.entries` and `Json.items` — the parts of a mapping in that order, and of a sequence.
-/

namespace Json

/-- The value at the end of a path of keys. -/
def at? (v : Json) : List String → Option Json
  | [] => some v
  | key :: path => (v.get? key).bind (·.at? path)

/-- Null, false, zero and the empty string are falsy; any mapping or sequence is truthy. -/
def isTruthy : Json → Bool
  | .null => false
  | .bool b => b
  | .num (.int i) => i != 0
  | .num (.float x) => x != 0.0
  | .str s => !s.isEmpty
  | .arr _ => true
  | .obj _ => true

/-- The items of a sequence; none for any other value. -/
def items : Json → List Json
  | .arr vs => vs
  | _ => []

end Json

/-- Something truthy is there: a falsy declaration counts as none. -/
def declared (v : Option Json) : Bool := v.any Json.isTruthy

/-! ### The order of entries -/

/-- The index that a key is the decimal numeral of: no sign, no leading zero, below `2 ^ 32 - 1`. -/
def arrayIndex? (key : String) : Option Nat :=
  let ds := key.toList
  let canonical := !ds.isEmpty && ds.all Char.isDigit && (ds.length == 1 || ds.head? != some '0')
  if canonical && value ds < Nat.pow 2 32 - 1 then some (value ds) else none

/-- The order of two keys: indices ascend and come before all other keys, which are all equal. -/
def keyLe (a b : String) : Bool :=
  match arrayIndex? a, arrayIndex? b with
  | some m, some n => m ≤ n
  | some _, none => true
  | none, some _ => false
  | none, none => true

theorem keyLe_total (a b : String) : (keyLe a b || keyLe b a) = true := by
  unfold keyLe
  split <;> split <;> simp_all
  omega

theorem keyLe_trans (a b c : String) (hab : keyLe a b = true) (hbc : keyLe b c = true) :
    keyLe a c = true := by
  unfold keyLe at *
  cases ha : arrayIndex? a <;> cases hb : arrayIndex? b <;> cases hc : arrayIndex? c <;>
    simp_all
  omega

/-- The entries of a mapping: index keys first, then all others in document order; none for any
    other value. -/
def Json.entries : Json → List (String × Json)
  | .obj ms => ms.mergeSort fun a b => keyLe a.1 b.1
  | _ => []

end SecurityScan
