import Mathlib.Data.List.Induction
import SecurityScan.Json.Basic
import SecurityScan.Proofs.FirstOccurrence

namespace SecurityScan.Members

/-!
# Objects written pair by pair

* `listsOnce_keys_ofPairs` — each key is a member once, where it comes first among the pairs;
* `get?_ofPairs` — a member has the value of the last pair with its key;
* `length_ofPairs_eq_iff` and `ofPairs_of_uniqueKeys` — all pairs are members exactly if no key is
  repeated.
-/

theorem ofPairs_concat (pairs : List (String × Json)) (p : String × Json) :
    ofPairs (pairs ++ [p]) = (ofPairs pairs).insert p.1 p.2 := by
  rw [ofPairs, List.foldl_append]
  rfl

/-- **Where members stand.** Each key is there once, where it comes first among the pairs. -/
theorem listsOnce_keys_ofPairs (pairs : List (String × Json)) :
    ListsOnce (keys pairs) (ofPairs pairs).keys := by
  induction pairs using List.reverseRecOn with
  | nil => exact ListsOnce.nil
  | append_singleton ps p ih =>
    rw [ofPairs_concat, keys_insert, keys, List.map_append]
    exact ih.snoc p.1

theorem get?_insert (ms : Members) (key : String) (v : Json) (key' : String) :
    get? (ms.insert key v) key' = if key = key' then some v else get? ms key' := by
  induction ms with
  | nil => rfl
  | cons p ms ih =>
    rw [insert]
    by_cases hp : p.1 = key
    · rw [if_pos hp, get?, get?, hp]
      by_cases hk : key = key' <;> simp [hk]
    · rw [if_neg hp, get?, get?, ih]
      by_cases hk : key = key'
      · rw [if_pos hk, if_pos hk, if_neg (hk ▸ hp)]
      · rw [if_neg hk, if_neg hk]

/-- **What members hold.** Under a key is the value of the last pair with it. -/
theorem get?_ofPairs (pairs : List (String × Json)) (key : String) :
    get? (ofPairs pairs) key = ((pairs.filter fun p => p.1 = key).getLast?).map (·.2) := by
  induction pairs using List.reverseRecOn with
  | nil => rfl
  | append_singleton ps p ih =>
    rw [ofPairs_concat, get?_insert, List.filter_append]
    by_cases hp : p.1 = key
    · simp [hp]
    · simp [hp, ih]

theorem length_ofPairs_le (pairs : List (String × Json)) :
    (ofPairs pairs).length ≤ pairs.length := by
  have hle := (listsOnce_keys_ofPairs pairs).subperm.length_le
  rwa [keys, keys, List.length_map, List.length_map] at hle

/-- **How many members.** As many as pairs exactly if no key is repeated. -/
theorem length_ofPairs_eq_iff (pairs : List (String × Json)) :
    (ofPairs pairs).length = pairs.length ↔ UniqueKeys pairs := by
  have hlen := (listsOnce_keys_ofPairs pairs).length_eq_iff
  rwa [keys, keys, List.length_map, List.length_map] at hlen

/-- A new key is written at the end. -/
theorem insert_of_notMem {ms : Members} {key : String} (h : key ∉ ms.keys) (value : Json) :
    ms.insert key value = ms ++ [(key, value)] := by
  induction ms with
  | nil => rfl
  | cons p ms ih =>
    rw [keys, List.map_cons, List.mem_cons, not_or] at h
    rw [insert, if_neg (Ne.symm h.1), ih h.2, List.cons_append]

/-- Pairs without a repeated key are written as they are. -/
theorem ofPairs_of_uniqueKeys {pairs : Members} (h : pairs.UniqueKeys) : ofPairs pairs = pairs := by
  induction pairs using List.reverseRecOn with
  | nil => rfl
  | append_singleton ps p ih =>
    rw [UniqueKeys, keys, List.map_append, List.nodup_append] at h
    have hnew : p.1 ∉ Members.keys ps := fun hmem => h.2.2 _ hmem _ (by simp) rfl
    rw [ofPairs_concat, ih h.1, insert_of_notMem hnew]

end SecurityScan.Members
