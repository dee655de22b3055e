import SecurityScan.Json.Basic
import SecurityScan.Decimal.Reading
import SecurityScan.Decimal.Shortest

namespace SecurityScan

open Decimal

/-!
# YAML values

* `Yaml` — a value with its aliases followed; keys of mappings may be any values;
* `Yaml.induct` — induction on values;
* `Yaml.decEq` — equality of values, which sees the order of the entries;
* `Yaml.same` — when two keys of a mapping are the same key;
* `Yaml.ofPlain` — what a plain scalar stands for: null, a boolean, a number or a string;
* `Yaml.numberText` and `Yaml.numberJson` — a number as a key and as part of a document.
-/

/-- A YAML value. -/
inductive Yaml where
  | null
  | bool (b : Bool)
  | num (n : Number)
  | str (s : String)
  | seq (items : List Yaml)
  | map (entries : List (Yaml × Yaml))
  | tagged (tag : String) (v : Yaml)
deriving Repr, Inhabited

namespace Yaml

section

variable {P : Yaml → Prop} (null : P .null) (bool : ∀ b, P (.bool b)) (num : ∀ n, P (.num n))
  (str : ∀ s, P (.str s)) (seq : ∀ items, (∀ v ∈ items, P v) → P (.seq items))
  (map : ∀ entries, (∀ e ∈ entries, P e.1 ∧ P e.2) → P (.map entries))
  (tagged : ∀ tag v, P v → P (.tagged tag v))

include null bool num str seq map tagged

-- the lists use the hypotheses through the values in them
set_option linter.unusedSectionVars false in
mutual

/-- **Induction.** What holds of the scalars, of a sequence if it holds of the items, of a mapping if
    it holds of the keys and values, and of a tagged value if it holds of the value, holds of all
    values. -/
theorem induct : ∀ v, P v
  | .null => null
  | .bool b => bool b
  | .num n => num n
  | .str s => str s
  | .seq items => seq items (inductItems items)
  | .map entries => map entries (inductEntries entries)
  | .tagged tag v => tagged tag v (induct v)

theorem inductItems : ∀ items : List Yaml, ∀ v ∈ items, P v
  | [] => by simp
  | v :: vs => List.forall_mem_cons.mpr ⟨induct v, inductItems vs⟩

theorem inductEntries : ∀ entries : List (Yaml × Yaml), ∀ e ∈ entries, P e.1 ∧ P e.2
  | [] => by simp
  | (k, v) :: es => List.forall_mem_cons.mpr ⟨⟨induct k, induct v⟩, inductEntries es⟩

end

end

/-! ### Equality of values -/

mutual
/-- Two values are equal. -/
def eqb : Yaml → Yaml → Bool
  | .null, .null => true
  | .bool a, .bool b => a == b
  | .num a, .num b => a == b
  | .str a, .str b => a == b
  | .seq a, .seq b => eqbItems a b
  | .map a, .map b => eqbEntries a b
  | .tagged s a, .tagged t b => s == t && eqb a b
  | _, _ => false
/-- Two sequences hold equal items. -/
def eqbItems : List Yaml → List Yaml → Bool
  | [], [] => true
  | a :: as, b :: bs => eqb a b && eqbItems as bs
  | _, _ => false
/-- Two mappings have equal entries in the same order. -/
def eqbEntries : List (Yaml × Yaml) → List (Yaml × Yaml) → Bool
  | [], [] => true
  | (j, a) :: as, (k, b) :: bs => eqb j k && eqb a b && eqbEntries as bs
  | _, _ => false
end

mutual

theorem eqb_iff : ∀ a b : Yaml, eqb a b = true ↔ a = b
  | .null, b | .bool _, b | .num _, b | .str _, b => by cases b <;> simp [eqb]
  | .seq as, b => by cases b <;> simp [eqb, eqbItems_iff as]
  | .map as, b => by cases b <;> simp [eqb, eqbEntries_iff as]
  | .tagged s a, b => by cases b <;> simp [eqb, eqb_iff a]

theorem eqbItems_iff : ∀ as bs : List Yaml, eqbItems as bs = true ↔ as = bs
  | [], bs => by cases bs <;> simp [eqbItems]
  | a :: as, bs => by cases bs <;> simp [eqbItems, eqb_iff a, eqbItems_iff as]

theorem eqbEntries_iff : ∀ as bs : List (Yaml × Yaml), eqbEntries as bs = true ↔ as = bs
  | [], bs => by cases bs <;> simp [eqbEntries]
  | (j, a) :: as, bs => by
    cases bs <;> simp [eqbEntries, eqb_iff j, eqb_iff a, eqbEntries_iff as, Prod.ext_iff]

end

instance decEq : DecidableEq Yaml := fun a b => decidable_of_iff _ (eqb_iff a b)

/-! ### Equality of keys -/

/-- Two numbers are the same key: all NaNs are one, and so are the zeros of both signs, but an
    integer is never a float. -/
def sameNumber : Number → Number → Bool
  | .int i, .int j => i == j
  | .float x, .float y => (x.isNaN && y.isNaN) || x == y
  | _, _ => false

mutual
/-- Two values are the same key.  The order of a mapping's entries does not matter. -/
def same : Yaml → Yaml → Bool
  | .null, .null => true
  | .bool a, .bool b => a == b
  | .num a, .num b => sameNumber a b
  | .str a, .str b => a == b
  | .seq a, .seq b => sameItems a b
  | .map a, .map b => a.length == b.length && sameEntries a b
  | .tagged s a, .tagged t b => s == t && same a b
  | _, _ => false
/-- Two sequences hold the same values. -/
def sameItems : List Yaml → List Yaml → Bool
  | [], [] => true
  | a :: as, b :: bs => same a b && sameItems as bs
  | _, _ => false
/-- Each entry of the first mapping is one of the second. -/
def sameEntries : List (Yaml × Yaml) → List (Yaml × Yaml) → Bool
  | [], _ => true
  | (k, v) :: es, fs => fs.any (fun f => same k f.1 && same v f.2) && sameEntries es fs
end

/-! ### Plain scalars -/

/-- A digit string with a leading zero, which is a string and no number. -/
def isPaddedDigits (cs : List Char) : Bool :=
  let ds := match cs with
    | '-' :: rest | '+' :: rest => rest
    | cs => cs
  1 < ds.length && ds.head? = some '0' && ds.all Char.isDigit

/-- The radix and the digits behind a mark of two characters. -/
def radixDigits : List Char → Nat × List Char
  | '0' :: 'x' :: ds => (16, ds)
  | '0' :: 'o' :: ds => (8, ds)
  | '0' :: 'b' :: ds => (2, ds)
  | ds => (10, ds)

/-- The integer of a plain scalar, of any size. -/
def int? (cs : List Char) : Option Int :=
  if isPaddedDigits cs then none
  else match cs with
    | '-' :: ds => let (radix, ds) := radixDigits ds; (natIn? radix ds).map fun n => -(n : Int)
    | '+' :: ds => let (radix, ds) := radixDigits ds; (natIn? radix ds).map fun n => (n : Int)
    | ds => let (radix, ds) := radixDigits ds; (natIn? radix ds).map fun n => (n : Int)

/-- The integer fits a 64-bit word, unsigned or signed. -/
def fitsWord (i : Int) : Bool := -(Int.pow 2 63) ≤ i && i < Int.pow 2 64

/-- The integer fits a 128-bit word, unsigned or signed. -/
def fitsDoubleWord (i : Int) : Bool := -(Int.pow 2 127) ≤ i && i < Int.pow 2 128

/-- The text after a plus sign, which no second sign may follow. -/
def dropPlus (cs : List Char) : Option (List Char) :=
  match cs with
  | '+' :: '+' :: _ | '+' :: '-' :: _ => none
  | '+' :: rest => some rest
  | cs => some cs

/-- The float of a plain scalar: the words for infinity and NaN, or a decimal in the finite range. -/
def float? (cs : List Char) : Option Float := do
  let unsigned ← dropPlus cs
  if [".inf", ".Inf", ".INF"].contains (String.ofList unsigned) then return infinity
  if ["-.inf", "-.Inf", "-.INF"].contains (String.ofList cs) then return -infinity
  if [".nan", ".NaN", ".NAN"].contains (String.ofList cs) then return 0.0 / 0.0
  let x ← decimal? unsigned
  if x.isFinite then return x else none

/-- The words for null. -/
def isNullWord (s : String) : Bool := ["null", "Null", "NULL", "~"].contains s

/-- The words for the booleans. -/
def bool? (s : String) : Option Bool :=
  if ["true", "True", "TRUE"].contains s then some true
  else if ["false", "False", "FALSE"].contains s then some false
  else none

/-- What a plain scalar stands for.  An integer that fits no 64-bit word but one of 128 bits is an
    error. -/
def ofPlain (s : String) : Option Yaml :=
  let cs := s.toList
  if s.isEmpty || isNullWord s then some .null
  else match bool? s with
    | some b => some (.bool b)
    | none =>
      match (int? cs).filter fitsDoubleWord with
      | some i => if fitsWord i then some (.num (.int i)) else none
      | none =>
        if isPaddedDigits cs then some (.str s)
        else match float? cs with
          | some x => some (.num (.float x))
          | none => some (.str s)

/-! ### The document of a value -/

/-- In keys a positive exponent has no sign. -/
def keyLayout : Layout := ⟨-5, 16, false⟩

/-- The text of a number as a key. -/
def numberText : Number → String
  | .int i => toString i
  | .float x =>
    if x.isNaN then ".nan"
    else if x.isInf then (if x < 0.0 then "-.inf" else ".inf")
    else String.ofList (keyLayout.write x)

/-- A number in a document: what is not finite becomes null. -/
def numberJson : Number → Json
  | .float x => if x.isFinite then .num (.float x) else .null
  | n => .num n

end Yaml

end SecurityScan
