namespace SecurityScan

/-!
# JSON values

The value type that specifications, reports and messages are made of.  Members of an object keep
the order in which they were written.

* `Number` — an integer of at most 64 bits, or a double;
* `Json` — a value; `Json.get?` looks up a member, `Json.merged` settles repeated keys;
* `Members.insert` — a repeated key keeps its first position and takes the last value;
* `Members.UniqueKeys` and `Json.UniqueKeys` — no object repeats a key;
* `Json.induct` — induction on values.
-/

/-- A number as JSON text can give it. -/
inductive Number where
  | int (i : Int)
  | float (x : Float)
deriving DecidableEq, Repr, Inhabited

/-- A JSON value. -/
inductive Json where
  | null
  | bool (b : Bool)
  | num (n : Number)
  | str (s : String)
  | arr (items : List Json)
  | obj (members : List (String × Json))
deriving Repr, Inhabited

/-- The members of an object in the order of the text. -/
abbrev Members := List (String × Json)

/-! ### Members -/

namespace Members

/-- The value under a key. -/
def get? : Members → String → Option Json
  | [], _ => none
  | (k, v) :: rest, key => if k = key then some v else get? rest key

/-- Writes a value under a key: in place if the key is there, else at the end. -/
def insert : Members → String → Json → Members
  | [], key, value => [(key, value)]
  | (k, v) :: rest, key, value =>
    if k = key then (k, value) :: rest else (k, v) :: insert rest key value

/-- The members that result from writing the pairs of a list one after the other. -/
def ofPairs (pairs : List (String × Json)) : Members :=
  pairs.foldl (fun ms p => ms.insert p.1 p.2) []

/-- The keys in their order. -/
def keys (ms : Members) : List String := ms.map (·.1)

/-- No key is written twice. -/
def UniqueKeys (ms : Members) : Prop := ms.keys.Nodup

theorem keys_insert (ms : Members) (key : String) (value : Json) :
    (ms.insert key value).keys = if key ∈ ms.keys then ms.keys else ms.keys ++ [key] := by
  induction ms with
  | nil => simp [insert, keys]
  | cons p rest ih =>
    obtain ⟨k, v⟩ := p
    simp only [keys, List.map_cons] at ih ⊢
    by_cases h : k = key
    · simp [insert, h]
    · have h' : ¬ key = k := fun e => h e.symm
      simp only [insert, h, if_false, List.map_cons, ih, List.mem_cons, h', false_or]
      split <;> simp [*]

theorem uniqueKeys_insert {ms : Members} (h : ms.UniqueKeys) (key : String) (value : Json) :
    (ms.insert key value).UniqueKeys := by
  unfold UniqueKeys at *
  rw [keys_insert]
  split
  · exact h
  · next hk =>
    rw [List.nodup_append]
    exact ⟨h, by simp, by simpa using fun a ha (e : a = key) => hk (e ▸ ha)⟩

theorem uniqueKeys_ofPairs (pairs : List (String × Json)) : (ofPairs pairs).UniqueKeys := by
  have step : ∀ (ps : List (String × Json)) (ms : Members), ms.UniqueKeys →
      (ps.foldl (fun ms p => ms.insert p.1 p.2) ms).UniqueKeys := by
    intro ps
    induction ps with
    | nil => exact fun _ h => h
    | cons p ps ih => exact fun ms h => ih _ (uniqueKeys_insert h p.1 p.2)
  exact step pairs [] List.nodup_nil

end Members

/-! ### Values -/

namespace Json

/-- The value under a key of an object; other values have no members. -/
def get? : Json → String → Option Json
  | .obj ms, key => Members.get? ms key
  | _, _ => none

/-- The text of a string value. -/
def asStr? : Json → Option String
  | .str s => some s
  | _ => none

theorem asStr?_eq_some_iff {v : Json} {s : String} : v.asStr? = some s ↔ v = .str s := by
  cases v <;> simp [asStr?]

/-- The value is an object. -/
def isObj : Json → Bool
  | .obj _ => true
  | _ => false

mutual
/-- The value in which every object has settled its repeated keys. -/
def merged : Json → Json
  | .arr items => .arr (mergedItems items)
  | .obj ms => .obj (Members.ofPairs (mergedMembers ms))
  | v => v
/-- Settles repeated keys inside each item. -/
def mergedItems : List Json → List Json
  | [] => []
  | v :: vs => merged v :: mergedItems vs
/-- Settles repeated keys inside each member's value. -/
def mergedMembers : List (String × Json) → List (String × Json)
  | [] => []
  | (k, v) :: ms => (k, merged v) :: mergedMembers ms
end

mutual
/-- The deepest nesting of arrays and objects: a scalar has none. -/
def depth : Json → Nat
  | .arr items => 1 + depthItems items
  | .obj ms => 1 + depthMembers ms
  | _ => 0
/-- The deepest nesting among the items. -/
def depthItems : List Json → Nat
  | [] => 0
  | v :: vs => max (depth v) (depthItems vs)
/-- The deepest nesting among the members' values. -/
def depthMembers : List (String × Json) → Nat
  | [] => 0
  | (_, v) :: ms => max (depth v) (depthMembers ms)
end

mutual
/-- No object in the value repeats a key. -/
def UniqueKeys : Json → Prop
  | .arr items => UniqueKeysItems items
  | .obj ms => Members.UniqueKeys ms ∧ UniqueKeysMembers ms
  | _ => True
/-- No object in an item repeats a key. -/
def UniqueKeysItems : List Json → Prop
  | [] => True
  | v :: vs => UniqueKeys v ∧ UniqueKeysItems vs
/-- No object in a member's value repeats a key. -/
def UniqueKeysMembers : List (String × Json) → Prop
  | [] => True
  | (_, v) :: ms => UniqueKeys v ∧ UniqueKeysMembers ms
end

mutual
/-- Equality of values is decidable: same shape, same order of members. -/
def decEq : (a b : Json) → Decidable (a = b)
  | .null, b => match b with
    | .null => isTrue rfl
    | .bool _ | .num _ | .str _ | .arr _ | .obj _ => isFalse (by simp)
  | .bool x, b => match b with
    | .bool y => decidable_of_iff (x = y) (by simp)
    | .null | .num _ | .str _ | .arr _ | .obj _ => isFalse (by simp)
  | .num x, b => match b with
    | .num y => decidable_of_iff (x = y) (by simp)
    | .null | .bool _ | .str _ | .arr _ | .obj _ => isFalse (by simp)
  | .str x, b => match b with
    | .str y => decidable_of_iff (x = y) (by simp)
    | .null | .bool _ | .num _ | .arr _ | .obj _ => isFalse (by simp)
  | .arr xs, b => match b with
    | .arr ys => match decEqItems xs ys with
      | isTrue h => isTrue (by rw [h])
      | isFalse h => isFalse (by simpa using h)
    | .null | .bool _ | .num _ | .str _ | .obj _ => isFalse (by simp)
  | .obj xs, b => match b with
    | .obj ys => match decEqMembers xs ys with
      | isTrue h => isTrue (by rw [h])
      | isFalse h => isFalse (by simpa using h)
    | .null | .bool _ | .num _ | .str _ | .arr _ => isFalse (by simp)
/-- Equality of items. -/
def decEqItems : (xs ys : List Json) → Decidable (xs = ys)
  | [], [] => isTrue rfl
  | [], _ :: _ => isFalse (by simp)
  | _ :: _, [] => isFalse (by simp)
  | x :: xs, y :: ys => match decEq x y, decEqItems xs ys with
    | isTrue h, isTrue t => isTrue (by rw [h, t])
    | isFalse h, _ => isFalse (by simp [h])
    | _, isFalse t => isFalse (by simp [t])
/-- Equality of members. -/
def decEqMembers : (xs ys : List (String × Json)) → Decidable (xs = ys)
  | [], [] => isTrue rfl
  | [], _ :: _ => isFalse (by simp)
  | _ :: _, [] => isFalse (by simp)
  | (j, x) :: xs, (k, y) :: ys =>
    if e : j = k then
      match decEq x y, decEqMembers xs ys with
      | isTrue h, isTrue t => isTrue (by rw [e, h, t])
      | isFalse h, _ => isFalse (by simp [h])
      | _, isFalse t => isFalse (by simp [t])
    else isFalse (by simp [e])
end

instance : DecidableEq Json := decEq

section

variable {P : Json → Prop} (null : P .null) (bool : ∀ b, P (.bool b)) (num : ∀ n, P (.num n))
  (str : ∀ s, P (.str s)) (arr : ∀ items, (∀ v ∈ items, P v) → P (.arr items))
  (obj : ∀ members : Members, (∀ p ∈ members, P p.2) → P (.obj members))

include null bool num str arr obj

-- the lists use the hypotheses through the values in them
set_option linter.unusedSectionVars false in
mutual

/-- **Induction.** What holds of the scalars, of an array if it holds of the items, and of an object
    if it holds of the members' values, holds of all values. -/
theorem induct : ∀ v, P v
  | .null => null
  | .bool b => bool b
  | .num n => num n
  | .str s => str s
  | .arr items => arr items (inductItems items)
  | .obj members => obj members (inductMembers members)

theorem inductItems : ∀ items : List Json, ∀ v ∈ items, P v
  | [] => by simp
  | v :: vs => List.forall_mem_cons.mpr ⟨induct v, inductItems vs⟩

theorem inductMembers : ∀ members : List (String × Json), ∀ p ∈ members, P p.2
  | [] => by simp
  | (_, v) :: ms => List.forall_mem_cons.mpr ⟨induct v, inductMembers ms⟩

end

end

theorem mergedMembers_eq_map (ms : Members) :
    mergedMembers ms = ms.map fun p => (p.1, p.2.merged) := by
  induction ms with
  | nil => rfl
  | cons p ms ih => simp [mergedMembers, ih]

theorem mergedItems_eq_map (vs : List Json) : mergedItems vs = vs.map merged := by
  induction vs with
  | nil => rfl
  | cons v vs ih => simp [mergedItems, ih]

end Json

end SecurityScan
