import SecurityScan.Specification.Load
import SecurityScan.Specification.Tree

namespace SecurityScan

/-!
# Lookups and unique keys

What a lookup in an object has to do with its list of members, and that no object of a loaded
document repeats a key.

* `Members.mem_of_get?` and `Members.get?_eq_some_iff` — a lookup finds a member, and with unique
  keys every member;
* `Members.get?_map` — lookups in an object whose values are mapped;
* `Json.mem_entries` and `Json.mem_entries_of_get?` — the entries of an object are its members, and
  a lookup finds one of them;
* `Json.UniqueKeys.mem_entries_iff` and `Json.UniqueKeys.nodup_entries` — with unique keys, the one
  that a lookup finds is the only one under its key;
* `Json.uniqueKeys_merged` and `Yaml.uniqueKeys_toJson` — the documents of both formats repeat no
  key;
* `load_uniqueKeys` — so no loaded document does.
-/

/-! ### Lookups -/

namespace Members

theorem mem_of_get? {ms : Members} {key : String} {v : Json} (h : get? ms key = some v) :
    (key, v) ∈ ms := by
  induction ms with
  | nil => simp [get?] at h
  | cons p ms ih =>
    rw [get?] at h
    by_cases hk : p.1 = key
    · rw [if_pos hk, Option.some.injEq] at h
      rw [← hk, ← h]
      exact List.mem_cons_self
    · rw [if_neg hk] at h
      exact List.mem_cons_of_mem _ (ih h)

/-- With unique keys a lookup finds every member. -/
theorem get?_eq_some_iff {ms : Members} (hms : ms.UniqueKeys) {key : String} {v : Json} :
    get? ms key = some v ↔ (key, v) ∈ ms := by
  refine ⟨mem_of_get?, fun h => ?_⟩
  induction ms with
  | nil => simp at h
  | cons p ms ih =>
    rw [UniqueKeys, keys, List.map_cons, List.nodup_cons] at hms
    rw [get?]
    rcases List.mem_cons.mp h with rfl | h
    · rw [if_pos rfl]
    · have hk : p.1 ≠ key := fun e => hms.1 (List.mem_map.mpr ⟨_, h, e.symm⟩)
      rw [if_neg hk]
      exact ih hms.2 h

theorem get?_map (f : Json → Json) (ms : Members) (key : String) :
    get? (ms.map fun p => (p.1, f p.2)) key = (get? ms key).map f := by
  induction ms with
  | nil => rfl
  | cons p ms ih =>
    rw [List.map_cons, get?, get?, ih]
    by_cases hk : p.1 = key
    · rw [if_pos hk, if_pos hk, Option.map_some]
    · rw [if_neg hk, if_neg hk]

/-- Writing a pair adds no value but its own. -/
theorem mem_insert {ms : Members} {key : String} {v : Json} {p : String × Json}
    (h : p ∈ ms.insert key v) : p ∈ ms ∨ p = (key, v) := by
  induction ms with
  | nil => exact .inr (by simpa [insert] using h)
  | cons q ms ih =>
    rw [insert] at h
    by_cases hk : q.1 = key
    · rw [if_pos hk] at h
      rcases List.mem_cons.mp h with rfl | h
      · exact .inr (by rw [hk])
      · exact .inl (List.mem_cons_of_mem _ h)
    · rw [if_neg hk] at h
      rcases List.mem_cons.mp h with rfl | h
      · exact .inl List.mem_cons_self
      · rcases ih h with h | h
        · exact .inl (List.mem_cons_of_mem _ h)
        · exact .inr h

/-- Every member that results from writing pairs is one of them. -/
theorem mem_ofPairs {pairs : List (String × Json)} {p : String × Json}
    (h : p ∈ ofPairs pairs) : p ∈ pairs := by
  -- on the pairs, with what has been written before them
  have hfold : ∀ (ps : List (String × Json)) (ms : Members),
      p ∈ ps.foldl (fun ms q => ms.insert q.1 q.2) ms → p ∈ ms ∨ p ∈ ps := by
    intro ps
    induction ps with
    | nil => exact fun ms h => .inl h
    | cons q ps ih =>
      intro ms h
      rcases ih _ h with h | h
      · rcases mem_insert h with h | rfl
        · exact .inl h
        · exact .inr List.mem_cons_self
      · exact .inr (List.mem_cons_of_mem _ h)
  rcases hfold pairs [] h with h | h
  · simp at h
  · exact h

end Members

namespace Json

theorem mem_entries {ms : Members} {p : String × Json} : p ∈ (obj ms).entries ↔ p ∈ ms :=
  List.mem_mergeSort

/-- Only an object has a value under a key. -/
theorem eq_obj_of_get? {v w : Json} {key : String} (h : v.get? key = some w) :
    ∃ ms, v = .obj ms ∧ Members.get? ms key = some w := by
  cases v with
  | obj ms => exact ⟨ms, rfl, h⟩
  | null | bool | num | str | arr => cases h

/-- What a lookup finds is an entry. -/
theorem mem_entries_of_get? {v w : Json} {key : String} (h : v.get? key = some w) :
    (key, w) ∈ v.entries := by
  obtain ⟨ms, rfl, hms⟩ := eq_obj_of_get? h
  exact mem_entries.mpr (Members.mem_of_get? hms)

/-! ### Unique keys -/

theorem uniqueKeysMembers_iff {ms : Members} :
    UniqueKeysMembers ms ↔ ∀ p ∈ ms, p.2.UniqueKeys := by
  induction ms with
  | nil => simp [UniqueKeysMembers]
  | cons p ms ih => simp [UniqueKeysMembers, ih]

theorem uniqueKeysItems_iff {vs : List Json} :
    UniqueKeysItems vs ↔ ∀ v ∈ vs, v.UniqueKeys := by
  induction vs with
  | nil => simp [UniqueKeysItems]
  | cons v vs ih => simp [UniqueKeysItems, ih]

/-- The value under a key repeats no key if the object does not. -/
theorem UniqueKeys.get? {v w : Json} {key : String} (hv : v.UniqueKeys)
    (h : v.get? key = some w) : w.UniqueKeys := by
  obtain ⟨ms, rfl, hms⟩ := eq_obj_of_get? h
  rw [UniqueKeys] at hv
  exact uniqueKeysMembers_iff.mp hv.2 _ (Members.mem_of_get? hms)

/-- With unique keys the entries are what lookups find. -/
theorem UniqueKeys.mem_entries_iff {v w : Json} {key : String} (hv : v.UniqueKeys) :
    (key, w) ∈ v.entries ↔ v.get? key = some w := by
  refine ⟨fun h => ?_, mem_entries_of_get?⟩
  cases v with
  | obj ms =>
    rw [UniqueKeys] at hv
    exact (Members.get?_eq_some_iff hv.1).mpr (mem_entries.mp h)
  | null | bool | num | str | arr => simp [entries] at h

theorem UniqueKeys.nodup_entries {v : Json} (hv : v.UniqueKeys) :
    (v.entries.map (·.1)).Nodup := by
  cases v with
  | obj ms =>
    rw [UniqueKeys] at hv
    -- the order of the entries is one of the members
    exact ((List.mergeSort_perm ms _).map _).nodup_iff.mpr hv.1
  | null | bool | num | str | arr => exact List.nodup_nil

/-- An object written pair by pair repeats no key, here or below, if the values do not. -/
theorem uniqueKeys_obj_ofPairs {pairs : List (String × Json)}
    (h : ∀ p ∈ pairs, p.2.UniqueKeys) : (obj (Members.ofPairs pairs)).UniqueKeys := by
  rw [UniqueKeys]
  exact ⟨Members.uniqueKeys_ofPairs pairs,
    uniqueKeysMembers_iff.mpr fun p hp => h p (Members.mem_ofPairs hp)⟩

mutual

theorem uniqueKeys_merged : ∀ v : Json, v.merged.UniqueKeys
  | .obj ms => uniqueKeys_obj_ofPairs (uniqueKeys_mergedMembers ms)
  | .arr vs => uniqueKeysItems_iff.mpr (uniqueKeys_mergedItems vs)
  | .null | .bool _ | .num _ | .str _ => trivial

theorem uniqueKeys_mergedItems : ∀ vs : List Json, ∀ v ∈ mergedItems vs, v.UniqueKeys
  | [] => by simp [mergedItems]
  | v :: vs => by
    rw [mergedItems, List.forall_mem_cons]
    exact ⟨uniqueKeys_merged v, uniqueKeys_mergedItems vs⟩

theorem uniqueKeys_mergedMembers :
    ∀ ms : List (String × Json), ∀ p ∈ mergedMembers ms, p.2.UniqueKeys
  | [] => by simp [mergedMembers]
  | (k, v) :: ms => by
    rw [mergedMembers, List.forall_mem_cons]
    exact ⟨uniqueKeys_merged v, uniqueKeys_mergedMembers ms⟩

end

end Json

namespace Yaml

mutual

theorem uniqueKeys_toJson : ∀ v : Yaml, v.toJson.UniqueKeys
  | .map entries => by
    rw [toJson]
    exact Json.uniqueKeys_obj_ofPairs (uniqueKeys_toJsonEntries entries)
  | .seq items => by
    rw [toJson]
    exact Json.uniqueKeysItems_iff.mpr (uniqueKeys_toJsonItems items)
  | .tagged _ v => by
    -- a tag is dropped
    rw [toJson]
    exact uniqueKeys_toJson v
  | .num n => by
    rw [toJson]
    cases n with
    | int i => trivial
    | float x =>
      rw [numberJson]
      split <;> trivial
  | .null | .bool _ | .str _ => by rw [toJson]; trivial

theorem uniqueKeys_toJsonItems : ∀ vs : List Yaml, ∀ v ∈ toJsonItems vs, v.UniqueKeys
  | [] => by simp [toJsonItems]
  | v :: vs => by
    rw [toJsonItems, List.forall_mem_cons]
    exact ⟨uniqueKeys_toJson v, uniqueKeys_toJsonItems vs⟩

theorem uniqueKeys_toJsonEntries :
    ∀ es : List (Yaml × Yaml), ∀ p ∈ toJsonEntries es, p.2.UniqueKeys
  | [] => by simp [toJsonEntries]
  | (k, v) :: es => by
    rw [toJsonEntries, List.forall_mem_cons]
    exact ⟨uniqueKeys_toJson v, uniqueKeys_toJsonEntries es⟩

end

end Yaml

/-- **No loaded document repeats a key,** whichever format it is written in. -/
theorem Specification.load_uniqueKeys {text : String} {doc : Json} (h : load text = .ok doc) :
    doc.UniqueKeys := by
  rw [load] at h
  split at h
  · cases h
  · split at h
    · next v hv =>
      obtain ⟨v, _, rfl⟩ := Option.map_eq_some_iff.mp hv
      cases h
      exact Json.uniqueKeys_merged v
    · split at h
      · cases h
        exact Yaml.uniqueKeys_toJson _
      · cases h

end SecurityScan
