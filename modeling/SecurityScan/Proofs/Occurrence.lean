import SecurityScan.Proofs.Parts

namespace SecurityScan.Specification

/-!
# Where references stand

The references of a document as occurrences at places, and what looking up a reference cannot add.

* `mem_references_arr` and `mem_references_obj` — the references in a value, part by part;
* `references_subset_of_targetOf` — the place that a reference leads to holds no other references
  than the document;
* `RefAt` — a reference stands at a place: the numbers of the items and members that lead to it;
* `mem_references_iff` — every reference of a value stands somewhere in it, and whatever stands
  somewhere is one of its references;
* `find?_references_iff` — the first reference with some property is the one at the least place in
  the lexicographic order, which is the order of the text.
-/

/-! ### References part by part -/

/-- The references that a member adds: a string under the key of a reference is one, and any other
    value adds those in it. -/
def referencesOfMember : String × Json → List String
  | (k, .str s) => if k = refKey then [s] else []
  | (_, v) => references v

theorem references_arr (vs : List Json) : references (.arr vs) = vs.flatMap references := by
  rw [references]
  induction vs with
  | nil => rfl
  | cons v vs ih => rw [referencesOfItems, ih, List.flatMap_cons]

theorem references_obj (ms : Members) : references (.obj ms) = ms.flatMap referencesOfMember := by
  rw [references]
  induction ms with
  | nil => rfl
  | cons p ms ih =>
    obtain ⟨k, v⟩ := p
    rw [List.flatMap_cons, ← ih]
    cases v <;> rfl

theorem mem_referencesOfMember {p : String × Json} {r : String} :
    r ∈ referencesOfMember p ↔ p = (refKey, .str r) ∨ r ∈ references p.2 := by
  obtain ⟨k, v⟩ := p
  cases v with
  | str s =>
    -- a string holds no references, it can only be one
    have hnone : references (.str s) = [] := rfl
    rw [referencesOfMember, hnone]
    by_cases hk : k = refKey
    · simp [hk, eq_comm]
    · simp [hk]
  | null | bool | num | arr | obj => simp [referencesOfMember]

theorem mem_references_arr {vs : List Json} {r : String} :
    r ∈ references (.arr vs) ↔ ∃ v ∈ vs, r ∈ references v := by
  rw [references_arr, List.mem_flatMap]

theorem mem_references_obj {ms : Members} {r : String} :
    r ∈ references (.obj ms) ↔ ∃ p ∈ ms, p = (refKey, .str r) ∨ r ∈ references p.2 := by
  rw [references_obj, List.mem_flatMap]
  exact exists_congr fun p => and_congr_right fun _ => mem_referencesOfMember

/-- The reference of an object is one of the references in it. -/
theorem mem_references_of_refOf? {ms : Members} {r : String} (h : refOf? ms = some r) :
    r ∈ references (.obj ms) := by
  obtain ⟨v, hv, hstr⟩ := Option.bind_eq_some_iff.mp h
  have hmem : (refKey, v) ∈ ms := Members.mem_of_get? hv
  cases v with
  | str s =>
    rw [Json.asStr?, Option.some.injEq] at hstr
    exact mem_references_obj.mpr ⟨_, hmem, .inl (by rw [hstr])⟩
  | null | bool | num | arr | obj => cases hstr

/-! ### What a lookup leads to -/

theorem references_subset_of_part {v w : Json} (h : v.Part w) : references w ⊆ references v := by
  induction h with
  | self => exact List.Subset.refl _
  | item hmem _ ih => exact fun r hr => mem_references_arr.mpr ⟨_, hmem, ih hr⟩
  | member hmem _ ih => exact fun r hr => mem_references_obj.mpr ⟨_, hmem, .inr (ih hr)⟩

/-- **A reference leads to no new references.** -/
theorem references_subset_of_targetOf {doc target : Json} {r : String}
    (h : targetOf doc r = .ok target) : references target ⊆ references doc :=
  references_subset_of_part (part_of_targetOf h)

/-! ### Places -/

/-- A reference stands at a place in a value.  A place is a list of numbers, each counting the items
    of an array or the members of an object from zero. -/
inductive RefAt : Json → List Nat → String → Prop where
  /-- A string under the key of a reference, whatever stands beside it. -/
  | here {ms : Members} {i : Nat} {r : String} :
      ms[i]? = some (refKey, .str r) → RefAt (.obj ms) [i] r
  | member {ms : Members} {i : Nat} {k : String} {v : Json} {place : List Nat} {r : String} :
      ms[i]? = some (k, v) → RefAt v place r → RefAt (.obj ms) (i :: place) r
  | item {vs : List Json} {i : Nat} {v : Json} {place : List Nat} {r : String} :
      vs[i]? = some v → RefAt v place r → RefAt (.arr vs) (i :: place) r

/-- A reference stands at a place in a member: the member is the reference, or it stands in the
    member's value. -/
def RefAtMember (p : String × Json) (place : List Nat) (r : String) : Prop :=
  (place = [] ∧ p = (refKey, .str r)) ∨ RefAt p.2 place r

theorem refAt_arr_iff {vs : List Json} {place : List Nat} {r : String} :
    RefAt (.arr vs) place r ↔
      ∃ i rest, place = i :: rest ∧ ∃ v, vs[i]? = some v ∧ RefAt v rest r := by
  constructor
  · intro h
    cases h with
    | item hi h => exact ⟨_, _, rfl, _, hi, h⟩
  · rintro ⟨i, rest, rfl, v, hi, h⟩
    exact .item hi h

theorem refAt_obj_iff {ms : Members} {place : List Nat} {r : String} :
    RefAt (.obj ms) place r ↔
      ∃ i rest, place = i :: rest ∧ ∃ p, ms[i]? = some p ∧ RefAtMember p rest r := by
  constructor
  · intro h
    cases h with
    | here hi => exact ⟨_, _, rfl, _, hi, .inl ⟨rfl, rfl⟩⟩
    | member hi h => exact ⟨_, _, rfl, _, hi, .inr h⟩
  · rintro ⟨i, rest, rfl, p, hi, ⟨rfl, rfl⟩ | h⟩
    · exact .here hi
    · exact .member hi h

/-- **References are what stands somewhere.** -/
theorem mem_references_iff {v : Json} {r : String} :
    r ∈ references v ↔ ∃ place, RefAt v place r := by
  induction v using Json.induct with
  | arr vs ih =>
    rw [mem_references_arr]
    constructor
    · rintro ⟨v, hv, hr⟩
      obtain ⟨place, hplace⟩ := (ih v hv).mp hr
      obtain ⟨i, hi⟩ := List.mem_iff_getElem?.mp hv
      exact ⟨i :: place, .item hi hplace⟩
    · rintro ⟨place, h⟩
      obtain ⟨i, rest, rfl, v, hi, hplace⟩ := refAt_arr_iff.mp h
      have hv : v ∈ vs := List.mem_of_getElem? hi
      exact ⟨v, hv, (ih v hv).mpr ⟨rest, hplace⟩⟩
  | obj ms ih =>
    rw [mem_references_obj]
    constructor
    · rintro ⟨p, hp, hr⟩
      obtain ⟨i, hi⟩ := List.mem_iff_getElem?.mp hp
      rcases hr with rfl | hr
      · exact ⟨[i], .here hi⟩
      · obtain ⟨place, hplace⟩ := (ih p hp).mp hr
        exact ⟨i :: place, .member hi hplace⟩
    · rintro ⟨place, h⟩
      obtain ⟨i, rest, rfl, p, hi, hplace⟩ := refAt_obj_iff.mp h
      have hp : p ∈ ms := List.mem_of_getElem? hi
      rcases hplace with ⟨_, heq⟩ | hplace
      · exact ⟨p, hp, .inl heq⟩
      · exact ⟨p, hp, .inr ((ih p hp).mpr ⟨rest, hplace⟩)⟩
  | null | bool | num | str =>
    constructor
    · intro h
      simp [references] at h
    · rintro ⟨_, h⟩
      cases h

/-! ### The order of places -/

/-- Of the references that stand at places as `At` says, `r` is the first bad one. -/
def FirstBad (At : List Nat → String → Prop) (bad : String → Bool) (r : String) : Prop :=
  ∃ place, At place r ∧ bad r = true ∧
    ∀ place' r', At place' r' → place' < place → bad r' = false

/-- The parts of a list come one after the other: the first bad reference of all stands in the first
    part that has one, and is the first one there. -/
theorem find?_flatMap_iff {α : Type} {g : α → List String} {At : α → List Nat → String → Prop}
    {bad : String → Bool} {xs : List α} (hmem : ∀ x ∈ xs, ∀ r, r ∈ g x ↔ ∃ place, At x place r)
    (hfirst : ∀ x ∈ xs, ∀ r, (g x).find? bad = some r ↔ FirstBad (At x) bad r) (r : String) :
    (xs.flatMap g).find? bad = some r ↔
      FirstBad (fun place r => ∃ i rest, place = i :: rest ∧ ∃ x, xs[i]? = some x ∧ At x rest r)
        bad r := by
  have hnone : ∀ x ∈ xs,
      (g x).find? bad = none ↔ ∀ place r, At x place r → bad r = false := by
    intro x hx
    rw [List.find?_eq_none]
    constructor
    · intro h place r hr
      exact Bool.eq_false_iff.mpr (h r ((hmem x hx r).mpr ⟨place, hr⟩))
    · intro h r hr
      obtain ⟨place, hplace⟩ := (hmem x hx r).mp hr
      simp [h place r hplace]
  rw [List.find?_flatMap, List.findSome?_eq_some_iff]
  constructor
  · rintro ⟨front, x, back, rfl, hx, hfront⟩
    obtain ⟨rest, hrest, hbad, hleast⟩ := (hfirst x (by simp) r).mp hx
    refine ⟨front.length :: rest, ⟨_, _, rfl, x, by simp, hrest⟩, hbad, ?_⟩
    rintro _ r' ⟨i, rest', rfl, y, hy, hr'⟩ hlt
    rcases List.cons_lt_cons_iff.mp hlt with hi | ⟨rfl, hbefore⟩
    · -- an earlier part has no bad reference
      rw [List.getElem?_append_left hi] at hy
      have hyfront : y ∈ front := List.mem_of_getElem? hy
      exact (hnone y (by simp [hyfront])).mp (hfront y hyfront) rest' r' hr'
    · have hxy : y = x := by simpa using hy.symm
      exact hleast rest' r' (hxy ▸ hr') hbefore
  · rintro ⟨_, ⟨i, rest, rfl, x, hx, hrest⟩, hbad, hleast⟩
    obtain ⟨hi, hget⟩ := List.getElem?_eq_some_iff.mp hx
    refine ⟨xs.take i, x, xs.drop (i + 1), ?_, ?_, ?_⟩
    · rw [← hget, List.getElem_cons_drop, List.take_append_drop]
    · refine (hfirst x (List.mem_of_getElem? hx) r).mpr ⟨rest, hrest, hbad, ?_⟩
      intro rest' r' hr' hlt
      exact hleast _ r' ⟨i, rest', rfl, x, hx, hr'⟩ (List.cons_lt_cons_iff.mpr (.inr ⟨rfl, hlt⟩))
    · intro y hy
      obtain ⟨j, hj⟩ := List.mem_iff_getElem?.mp hy
      have hji : j < i := by
        have hlen := (List.getElem?_eq_some_iff.mp hj).1
        rw [List.length_take] at hlen
        omega
      have hyj : xs[j]? = some y := by rwa [List.getElem?_take_of_lt hji] at hj
      refine (hnone y (List.mem_of_getElem? hyj)).mpr fun place r' hr' => ?_
      exact hleast _ r' ⟨j, place, rfl, y, hyj, hr'⟩ (List.cons_lt_cons_iff.mpr (.inl hji))

/-- A member that is a reference stands before nothing else, and any other member adds what stands
    in its value. -/
theorem find?_referencesOfMember_iff {p : String × Json} {bad : String → Bool}
    (h : ∀ r, (references p.2).find? bad = some r ↔ FirstBad (RefAt p.2) bad r) (r : String) :
    (referencesOfMember p).find? bad = some r ↔ FirstBad (RefAtMember p) bad r := by
  by_cases href : ∃ s, p = (refKey, .str s)
  · obtain ⟨s, rfl⟩ := href
    have hat : ∀ place r', RefAtMember (refKey, .str s) place r' ↔ place = [] ∧ r' = s := by
      intro place r'
      constructor
      · rintro (⟨rfl, heq⟩ | hin)
        · exact ⟨rfl, by simpa [eq_comm] using heq⟩
        · cases hin
      · rintro ⟨rfl, rfl⟩
        exact .inl ⟨rfl, rfl⟩
    rw [referencesOfMember, if_pos rfl]
    constructor
    · intro hfind
      have hbad : bad r = true := List.find?_some hfind
      have hs : r = s := List.mem_singleton.mp (List.mem_of_find?_eq_some hfind)
      refine ⟨[], (hat _ _).mpr ⟨rfl, hs⟩, hbad, ?_⟩
      intro place' _ _ hlt
      exact absurd hlt (List.not_lt_nil place')
    · rintro ⟨_, hplace, hbad, _⟩
      obtain ⟨_, rfl⟩ := (hat _ _).mp hplace
      rw [List.find?_cons_of_pos hbad]
  · have hat : RefAtMember p = RefAt p.2 := by
      funext place r'
      refine propext ⟨?_, .inr⟩
      rintro (⟨_, heq⟩ | hin)
      · exact absurd ⟨_, heq⟩ href
      · exact hin
    have hown : referencesOfMember p = references p.2 := by
      obtain ⟨k, v⟩ := p
      cases v with
      | str s =>
        have hk : k ≠ refKey := fun hk => href ⟨s, by rw [hk]⟩
        exact if_neg hk
      | null | bool | num | arr | obj => rfl
    rw [hown, hat]
    exact h r

/-- **Order.** The references are listed in the order of their places. -/
theorem find?_references_iff {v : Json} {bad : String → Bool} {r : String} :
    (references v).find? bad = some r ↔ FirstBad (RefAt v) bad r := by
  have hscalar : ∀ v : Json, references v = [] → (∀ place r, ¬ RefAt v place r) →
      ∀ r, (references v).find? bad = some r ↔ FirstBad (RefAt v) bad r := by
    intro v hnil hnot r
    rw [hnil]
    constructor
    · intro h
      cases h
    · rintro ⟨place, hplace, _⟩
      exact absurd hplace (hnot place r)
  induction v using Json.induct generalizing r with
  | arr vs ih =>
    have hat : RefAt (.arr vs) =
        fun place r => ∃ i rest, place = i :: rest ∧ ∃ v, vs[i]? = some v ∧ RefAt v rest r := by
      funext place r
      exact propext refAt_arr_iff
    rw [references_arr, hat]
    exact find?_flatMap_iff (fun _ _ _ => mem_references_iff) (fun v hv _ => ih v hv) r
  | obj ms ih =>
    have hat : RefAt (.obj ms) =
        fun place r => ∃ i rest, place = i :: rest ∧
          ∃ p, ms[i]? = some p ∧ RefAtMember p rest r := by
      funext place r
      exact propext refAt_obj_iff
    have hmem : ∀ p ∈ ms, ∀ r, r ∈ referencesOfMember p ↔ ∃ place, RefAtMember p place r := by
      intro p _ r
      rw [mem_referencesOfMember, mem_references_iff]
      constructor
      · rintro (heq | ⟨place, hplace⟩)
        · exact ⟨[], .inl ⟨rfl, heq⟩⟩
        · exact ⟨place, .inr hplace⟩
      · rintro ⟨place, ⟨_, heq⟩ | hplace⟩
        · exact .inl heq
        · exact .inr ⟨place, hplace⟩
    rw [references_obj, hat]
    refine find?_flatMap_iff hmem (fun p hp r => ?_) r
    exact find?_referencesOfMember_iff (fun _ => ih p hp) r
  | null => exact hscalar _ rfl (by rintro _ _ ⟨⟩) r
  | bool b => exact hscalar _ rfl (by rintro _ _ ⟨⟩) r
  | num n => exact hscalar _ rfl (by rintro _ _ ⟨⟩) r
  | str s => exact hscalar _ rfl (by rintro _ _ ⟨⟩) r

end SecurityScan.Specification
