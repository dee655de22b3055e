import Mathlib.Data.List.Nodup
import Mathlib.Data.List.Perm.Subperm

namespace SecurityScan

/-!
# Lists without their repetitions

Suggestions and members are collected one after the other, and what is there already is not put
there again.

* `ListsOnce` — a list holds what another list holds, once each, in the order of their first
  occurrences;
* `ListsOnce.snoc` — what one more element does to it;
* `ListsOnce.length_eq_iff` — nothing is dropped exactly if nothing is repeated.
-/

/-- `ds` holds the elements of `xs`, each once and at the place of its first occurrence. -/
structure ListsOnce {α : Type} [BEq α] (xs ds : List α) : Prop where
  mem_iff : ∀ x, x ∈ ds ↔ x ∈ xs
  ordered : ds.Pairwise fun x y => xs.idxOf x < xs.idxOf y

namespace ListsOnce

variable {α : Type} [DecidableEq α] {xs ds : List α}

theorem nil : ListsOnce ([] : List α) [] := ⟨fun _ => Iff.rfl, List.Pairwise.nil⟩

theorem nodup (h : ListsOnce xs ds) : ds.Nodup :=
  h.ordered.imp fun {x y} (hlt : xs.idxOf x < xs.idxOf y) (heq : x = y) =>
    Nat.lt_irrefl (xs.idxOf y) (heq ▸ hlt)

/-- **One more element** is listed last if it is new, and is left out otherwise. -/
theorem snoc (h : ListsOnce xs ds) (x : α) :
    ListsOnce (xs ++ [x]) (if x ∈ ds then ds else ds ++ [x]) := by
  -- what is listed already keeps its place
  have hkept : ds.Pairwise fun y z => (xs ++ [x]).idxOf y < (xs ++ [x]).idxOf z := by
    refine h.ordered.imp_of_mem fun hy hz hlt => ?_
    rwa [List.idxOf_append_of_mem ((h.mem_iff _).mp hy),
      List.idxOf_append_of_mem ((h.mem_iff _).mp hz)]
  by_cases hx : x ∈ ds
  · rw [if_pos hx]
    refine ⟨fun y => ?_, hkept⟩
    rw [h.mem_iff, List.mem_append, List.mem_singleton]
    constructor
    · exact .inl
    · rintro (hy | rfl)
      · exact hy
      · exact (h.mem_iff _).mp hx
  · rw [if_neg hx]
    have hnew : x ∉ xs := mt (h.mem_iff x).mpr hx
    refine ⟨fun y => by simp [h.mem_iff], List.pairwise_append.mpr ⟨hkept, ?_, ?_⟩⟩
    · exact List.pairwise_singleton _ x
    · intro y hy z hz
      rw [List.mem_singleton] at hz
      have hy : y ∈ xs := (h.mem_iff y).mp hy
      rw [hz, List.idxOf_append_of_mem hy, List.idxOf_append_of_notMem hnew]
      have hlt : xs.idxOf y < xs.length := List.idxOf_lt_length_iff.mpr hy
      omega

theorem subperm (h : ListsOnce xs ds) : List.Subperm ds xs :=
  h.nodup.subperm fun x hx => (h.mem_iff x).mp hx

/-- **Nothing is dropped** exactly if nothing is repeated. -/
theorem length_eq_iff (h : ListsOnce xs ds) : ds.length = xs.length ↔ xs.Nodup := by
  constructor
  · intro hlen
    exact (h.subperm.perm_of_length_le (Nat.le_of_eq hlen.symm)).nodup_iff.mp h.nodup
  · intro hxs
    have hback : List.Subperm xs ds := hxs.subperm fun x hx => (h.mem_iff x).mpr hx
    exact Nat.le_antisymm h.subperm.length_le hback.length_le

end ListsOnce

end SecurityScan
