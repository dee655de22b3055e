import SecurityScan.Json.Basic

namespace SecurityScan

/-!
# Values that travel as JSON

* `Wire` — how a type is written as JSON, and which JSON is read back as which value;
* `Slots` — the fields of a record that were given, by name or by position;
* `Slots.required`, `Slots.optional` and `Slots.withDefault` — what a field that was not given means;
* `Wire.natBelow?` — the integers that fit a word of some width.

A record may be written as an object or as the array of its fields.  In an object, fields that the
record does not know are passed over, and a known field must not come twice.  An array must not be
longer than the record.
-/

/-- A type with a JSON form. -/
class Wire (α : Type) where
  encode : α → Json
  decode? : Json → Option α

export Wire (encode)

namespace Wire

instance : Wire Bool where
  encode := .bool
  decode?
    | .bool b => some b
    | _ => none

instance : Wire String where
  encode := .str
  decode?
    | .str s => some s
    | _ => none

/-- Reads items one after the other. -/
def decodeItems? {α : Type} [Wire α] : List Json → Option (List α)
  | [] => some []
  | v :: vs => do
    let a ← decode? v
    let as ← decodeItems? vs
    return a :: as

instance {α : Type} [Wire α] : Wire (List α) where
  encode as := .arr (as.map encode)
  decode?
    | .arr vs => decodeItems? vs
    | _ => none

/-- An absent value is null; a type with an optional form must not use null itself. -/
instance {α : Type} [Wire α] : Wire (Option α) where
  encode
    | none => .null
    | some a => encode a
  decode?
    | .null => some none
    | v => (decode? v).map some

/-- The integer of a JSON number, if it is written as one and lies below a bound. -/
def natBelow? (bound : Nat) : Json → Option Nat
  | .num (.int i) => if 0 ≤ i ∧ i < bound then some i.toNat else none
  | _ => none

/-- A number without sign; what bounds it is the integers that JSON text can give. -/
instance : Wire Nat where
  encode n := .num (.int n)
  decode?
    | .num (.int i) => if 0 ≤ i then some i.toNat else none
    | _ => none

instance : Wire UInt16 where
  encode n := .num (.int n.toNat)
  decode? v := (natBelow? UInt16.size v).map UInt16.ofNat

instance : Wire UInt32 where
  encode n := .num (.int n.toNat)
  decode? v := (natBelow? UInt32.size v).map UInt32.ofNat

instance : Wire UInt64 where
  encode n := .num (.int n.toNat)
  decode? v := (natBelow? UInt64.size v).map UInt64.ofNat

/-- The word of an enumeration value, also as the key of an object whose value is null. -/
def word? : Json → Option String
  | .str s => some s
  | .obj [(s, .null)] => some s
  | _ => none

/-- The value of an enumeration with a given word. -/
def oneOf? {α : Type} (name : α → String) (all : List α) (v : Json) : Option α :=
  (word? v).bind fun s => all.find? fun a => name a == s

end Wire

/-! ### Records -/

/-- The fields of a record that were given. -/
structure Slots where
  values : Members
  /-- They were given by position, so only the last ones can be missing. -/
  positional : Bool

/-- The fields of a record with the given names, in the order of the record. -/
def Json.slots? (names : List String) : Json → Option Slots
  | .obj ms =>
    let known := ms.filter fun p => names.contains p.1
    if (known.map (·.1)).Nodup then some ⟨known, false⟩ else none
  | .arr vs => if vs.length ≤ names.length then some ⟨names.zip vs, true⟩ else none
  | _ => none

namespace Slots

variable {α : Type} [Wire α]

/-- A field that must be given. -/
def required (s : Slots) (name : String) : Option α :=
  (s.values.get? name).bind Wire.decode?

/-- A field that may be left out of an object, though not of an array. -/
def optional (s : Slots) (name : String) : Option (Option α) :=
  match s.values.get? name with
  | some v => Wire.decode? v
  | none => if s.positional then none else some none

/-- A field with a value of its own where none is given. -/
def withDefault (s : Slots) (name : String) (default : α) : Option α :=
  match s.values.get? name with
  | some v => Wire.decode? v
  | none => some default

end Slots

end SecurityScan
