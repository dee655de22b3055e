import Mathlib.Data.List.Basic
import SecurityScan.Proofs.Numeral
import SecurityScan.Proofs.UniqueKeys

namespace SecurityScan

open Decimal

/-!
# The order in which a mapping is gone through

Keys that are array indices come first and ascend, and all other keys keep the order of the document.

* `IsIndexKey` and `arrayIndex?_eq_some_iff` — an index is the numeral of a number that is small
  enough, so that signs and leading zeros make other keys;
* `keyOrder` and `isLE_keyOrder` — the order as a comparison three ways;
* `keyLe_refl`, and `keyLe_trans` and `keyLe_total` beside the definition — it is a total preorder;
* `exists_numerals` — sorted indices are the numerals of ascending numbers;
* `filter_entries` — a stable sort leaves keys alone that compare equal;
* `entries_enumerate` — so the entries are the index keys in ascending order, then the others.
-/

/-! ### The order of keys -/

/-- The key is an array index: the numeral of a number below `2 ^ 32 - 1`. -/
def IsIndexKey (key : String) : Prop := ∃ n < 4294967295, key = toString n

theorem arrayIndex?_eq_some_iff {key : String} {n : Nat} :
    arrayIndex? key = some n ↔ n < 4294967295 ∧ key = toString n := by
  rw [eq_toString_iff, ← isNumeral_iff, arrayIndex?]
  simp only [Bool.and_eq_true, decide_eq_true_eq]
  constructor
  · intro h
    split at h
    · next hkey =>
      cases h
      exact ⟨hkey.2, hkey.1, rfl⟩
    · cases h
  · rintro ⟨hlt, hnumeral, rfl⟩
    exact if_pos ⟨hnumeral, hlt⟩

theorem isSome_arrayIndex?_iff {key : String} : (arrayIndex? key).isSome = true ↔ IsIndexKey key := by
  rw [Option.isSome_iff_exists, IsIndexKey]
  simp only [arrayIndex?_eq_some_iff]

instance : DecidablePred IsIndexKey := fun _ => decidable_of_iff _ isSome_arrayIndex?_iff

/-- The comparison of two keys three ways: indices compare as numbers and come before all other
    keys, which compare equal. -/
def keyOrder (a b : String) : Ordering :=
  match arrayIndex? a, arrayIndex? b with
  | some m, some n => compare m n
  | some _, none => .lt
  | none, some _ => .gt
  | none, none => .eq

theorem isLE_keyOrder (a b : String) : (keyOrder a b).isLE = keyLe a b := by
  unfold keyOrder keyLe
  cases arrayIndex? a with
  | none => cases arrayIndex? b <;> rfl
  | some m =>
    cases arrayIndex? b with
    | none => rfl
    | some n =>
      show (compare m n).isLE = decide (m ≤ n)
      rw [Bool.eq_iff_iff, Nat.isLE_compare, decide_eq_true_eq]

/-- Exchanging the keys turns the comparison round. -/
theorem swap_keyOrder (a b : String) : (keyOrder a b).swap = keyOrder b a := by
  unfold keyOrder
  cases arrayIndex? a with
  | none => cases arrayIndex? b <;> rfl
  | some m =>
    cases arrayIndex? b with
    | none => rfl
    | some n => exact Nat.compare_swap m n

theorem keyLe_refl (a : String) : keyLe a a = true := by
  simpa using keyLe_total a a

/-- A key before an index is an index. -/
theorem IsIndexKey.of_keyLe {a b : String} (hb : IsIndexKey b) (h : keyLe a b = true) :
    IsIndexKey a := by
  rw [← isSome_arrayIndex?_iff] at hb ⊢
  unfold keyLe at h
  cases ha : arrayIndex? a with
  | some m => rfl
  | none =>
    obtain ⟨n, hn⟩ := Option.isSome_iff_exists.mp hb
    simp [ha, hn] at h

/-- Keys that are no indices compare equal. -/
theorem keyLe_of_not_isIndexKey {a b : String} (ha : ¬ IsIndexKey a) (hb : ¬ IsIndexKey b) :
    keyLe a b = true := by
  rw [← isSome_arrayIndex?_iff, Bool.not_eq_true, Option.isSome_eq_false_iff,
    Option.isNone_iff_eq_none] at ha hb
  rw [keyLe, ha, hb]

/-- Two different indices ascend. -/
theorem lt_of_keyLe {a b : String} {m n : Nat} (ha : arrayIndex? a = some m)
    (hb : arrayIndex? b = some n) (h : keyLe a b = true) (hne : a ≠ b) : m < n := by
  have hle : m ≤ n := by simpa [keyLe, ha, hb] using h
  refine Nat.lt_of_le_of_ne hle ?_
  rintro rfl
  -- a number has one numeral
  have htext := (arrayIndex?_eq_some_iff.mp ha).2
  rw [← (arrayIndex?_eq_some_iff.mp hb).2] at htext
  exact hne htext

/-! ### Sorted lists -/

/-- Sorted index keys without repetition are the numerals of ascending numbers. -/
theorem exists_numerals {keys : List String} (hindex : ∀ key ∈ keys, IsIndexKey key)
    (hsorted : keys.Pairwise fun a b => keyLe a b = true) (hnodup : keys.Nodup) :
    ∃ ns : List Nat, keys = ns.map toString ∧ ns.Pairwise (· < ·) ∧ ∀ n ∈ ns, n < 4294967295 := by
  induction keys with
  | nil => exact ⟨[], rfl, List.Pairwise.nil, by simp⟩
  | cons key keys ih =>
    obtain ⟨⟨n, hn, hkey⟩, hindex⟩ := List.forall_mem_cons.mp hindex
    obtain ⟨hfirst, hsorted⟩ := List.pairwise_cons.mp hsorted
    obtain ⟨hnew, hnodup⟩ := List.nodup_cons.mp hnodup
    obtain ⟨ns, hns, hascend, hbound⟩ := ih hindex hsorted hnodup
    refine ⟨n :: ns, by rw [List.map_cons, ← hkey, ← hns], List.pairwise_cons.mpr ⟨?_, hascend⟩,
      List.forall_mem_cons.mpr ⟨hn, hbound⟩⟩
    intro m hm
    have hmem : toString m ∈ keys := hns ▸ List.mem_map_of_mem hm
    have hne : key ≠ toString m := fun heq => hnew (heq ▸ hmem)
    exact lt_of_keyLe (arrayIndex?_eq_some_iff.mpr ⟨hn, hkey⟩)
      (arrayIndex?_eq_some_iff.mpr ⟨hbound m hm, rfl⟩) (hfirst _ hmem) hne

/-- A list in which nothing that has the property comes after something that does not. -/
theorem eq_filter_append_filter {α : Type} {p : α → Prop} [DecidablePred p] {l : List α}
    (h : l.Pairwise fun a b => p b → p a) :
    l = l.filter (fun a => p a) ++ l.filter fun a => ¬ p a := by
  induction l with
  | nil => rfl
  | cons a l ih =>
    obtain ⟨hfirst, hrest⟩ := List.pairwise_cons.mp h
    by_cases ha : p a
    · simp only [List.filter_cons, ha, decide_true, not_true_eq_false, decide_false, if_true,
        List.cons_append]
      exact congrArg (a :: ·) (ih hrest)
    · -- nothing behind `a` has the property
      have hnone : ∀ b ∈ l, ¬ p b := fun b hb hpb => ha (hfirst b hb hpb)
      have hleft : l.filter (fun b => p b) = [] := by simpa using hnone
      have hright : l.filter (fun b => ¬ p b) = l := by simpa using hnone
      rw [List.filter_cons_of_neg (by simpa using ha), hleft,
        List.filter_cons_of_pos (by simpa using ha), hright, List.nil_append]

/-! ### Entries -/

section

variable {ms : Members}

theorem perm_entries : (Json.obj ms).entries.Perm ms := List.mergeSort_perm ms _

theorem pairwise_entries : (Json.obj ms).entries.Pairwise fun a b => keyLe a.1 b.1 = true :=
  @List.pairwise_mergeSort _ (fun a b : String × Json => keyLe a.1 b.1)
    (fun a b c => keyLe_trans a.1 b.1 c.1) (fun a b => keyLe_total a.1 b.1) ms

/-- The keys that are no indices stay in the order of the document. -/
theorem filter_entries : (Json.obj ms).entries.filter (fun e => ¬ IsIndexKey e.1) =
    ms.filter fun e => ¬ IsIndexKey e.1 := by
  have hequal : (ms.filter fun e => ¬ IsIndexKey e.1).Pairwise fun a b => keyLe a.1 b.1 = true := by
    refine List.Pairwise.imp_of_mem ?_ (List.pairwise_of_forall fun _ _ => trivial)
    intro a b ha hb _
    exact keyLe_of_not_isIndexKey (by simpa using List.of_mem_filter ha)
      (by simpa using List.of_mem_filter hb)
  -- what is in order already is found in the sorted list in that order
  have hsublist : (ms.filter fun e => ¬ IsIndexKey e.1).Sublist (Json.obj ms).entries :=
    @List.sublist_mergeSort _ (fun a b : String × Json => keyLe a.1 b.1) ms
      (fun a b c => keyLe_trans a.1 b.1 c.1) (fun a b => keyLe_total a.1 b.1) _ hequal
      List.filter_sublist
  have hkept := hsublist.filter fun e => ¬ IsIndexKey e.1
  rw [List.filter_filter] at hkept
  simp only [Bool.and_self] at hkept
  exact (hkept.eq_of_length (perm_entries.filter _).length_eq.symm).symm

end

/-- **Enumeration.** The entries of a mapping are its members, each once.  First come those whose
    keys are array indices, in ascending order of the numbers, then all others in the order of the
    document.  The order that they are sorted by is a total preorder on all keys. -/
theorem entries_enumerate {ms : Members} (hms : ms.UniqueKeys) :
    (∃ (indexed : Members) (ns : List Nat),
        (Json.obj ms).entries = indexed ++ ms.filter (fun e => ¬ IsIndexKey e.1) ∧
        indexed.map (·.1) = ns.map toString ∧ ns.Pairwise (· < ·) ∧ ∀ n ∈ ns, n < 4294967295) ∧
      ((Json.obj ms).entries.Perm ms ∧ ((Json.obj ms).entries.map (·.1)).Nodup) ∧
      (∀ a b, keyLe a b = (keyOrder a b).isLE ∧ (keyOrder a b).swap = keyOrder b a) ∧
      (∀ a, keyLe a a = true) ∧
      (∀ a b c, keyLe a b = true → keyLe b c = true → keyLe a c = true) ∧
      ∀ a b, keyLe a b = true ∨ keyLe b a = true := by
  have hperm : (Json.obj ms).entries.Perm ms := perm_entries
  have hnodup : ((Json.obj ms).entries.map (·.1)).Nodup := (hperm.map _).nodup_iff.mpr hms
  refine ⟨?_, ⟨hperm, hnodup⟩, fun a b => ⟨(isLE_keyOrder a b).symm, swap_keyOrder a b⟩,
    keyLe_refl, keyLe_trans, fun a b => Bool.or_eq_true_iff.mp (keyLe_total a b)⟩
  -- the front of the sorted list is what has an index for its key
  have hfront : ((Json.obj ms).entries.filter fun e => IsIndexKey e.1).Sublist
      (Json.obj ms).entries := List.filter_sublist
  have hindex : ∀ key ∈ ((Json.obj ms).entries.filter fun e => IsIndexKey e.1).map (·.1),
      IsIndexKey key := by
    intro key hkey
    obtain ⟨e, he, rfl⟩ := List.mem_map.mp hkey
    simpa using List.of_mem_filter he
  obtain ⟨ns, hns, hascend, hbound⟩ := exists_numerals hindex
    (List.pairwise_map.mpr (pairwise_entries.sublist hfront)) (hnodup.sublist (hfront.map _))
  refine ⟨_, ns, ?_, hns, hascend, hbound⟩
  rw [← filter_entries]
  apply eq_filter_append_filter
  exact pairwise_entries.imp fun hle hb => hb.of_keyLe hle

/-- Members under the given keys. -/
def membersAt (keys : List String) : Members := keys.map fun key => (key, .null)

/-- Keys on either side of each condition on an index. -/
def mixedKeys : List String :=
  ["default", "404", "+5", "4294967295", "", "007", "4294967294", "-1", "0", "99999999999", "10"]

theorem entries_enumerate_mixedKeys :
    (membersAt mixedKeys).UniqueKeys ∧ ∃ (indexed : Members) (ns : List Nat),
      (Json.obj (membersAt mixedKeys)).entries =
        indexed ++ membersAt ["default", "+5", "4294967295", "", "007", "-1", "99999999999"] ∧
      indexed.map (·.1) = ns.map toString ∧ ns.Pairwise (· < ·) := by
  have hkeys : (membersAt mixedKeys).UniqueKeys := by
    show (Members.keys (membersAt mixedKeys)).Nodup
    decide +kernel
  have hothers : (membersAt mixedKeys).filter (fun e => ¬ IsIndexKey e.1) =
      membersAt ["default", "+5", "4294967295", "", "007", "-1", "99999999999"] := by
    decide +kernel
  obtain ⟨indexed, ns, hentries, hnumerals, hascend, _⟩ := (entries_enumerate hkeys).1
  rw [hothers] at hentries
  exact ⟨hkeys, indexed, ns, hentries, hnumerals, hascend⟩

end SecurityScan
