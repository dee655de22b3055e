import SecurityScan.Proofs.Replacement
import SecurityScan.Proofs.UniqueKeys

namespace SecurityScan.Specification

/-!
# What is written inline

A reference is replaced as a whole, with everything that stands beside it.  What stands inside no
reference keeps its place.

* `isReference` — an object that refers;
* `inlineAt?` — the value at the end of a path of keys that leads through no reference;
* `get?_substitute` and `mem_entries_substitute` — the members of an object that does not refer,
  after its references are replaced;
* `mem_entries_substitute_iff` — with unique keys, the one member under a key;
* `at?_substitute` — a path through no reference leads to the same place, replaced.
-/

/-- An object that refers, wherever it leads. -/
def isReference : Json → Bool
  | .obj ms => (refOf? ms).isSome
  | _ => false

/-- The value at the end of a path of keys, if no object on the way refers. -/
def inlineAt? (v : Json) : List String → Option Json
  | [] => some v
  | key :: path => if isReference v then none else (v.get? key).bind (inlineAt? · path)

theorem inlineAt?_cons {v w : Json} {key : String} {path : List String} :
    inlineAt? v (key :: path) = some w ↔
      isReference v = false ∧ ∃ u, v.get? key = some u ∧ inlineAt? u path = some w := by
  rw [inlineAt?]
  by_cases h : isReference v = true
  · simp [h]
  · simp [h, Option.bind_eq_some_iff]

theorem inlineAt?_append (path : List String) {rest : List String} {v w : Json} :
    inlineAt? v (path ++ rest) = some w ↔
      ∃ u, inlineAt? v path = some u ∧ inlineAt? u rest = some w := by
  induction path generalizing v with
  | nil => simp [inlineAt?]
  | cons key path ih =>
    rw [List.cons_append, inlineAt?_cons]
    constructor
    · rintro ⟨href, u, hget, h⟩
      obtain ⟨x, hx, hrest⟩ := ih.mp h
      exact ⟨x, inlineAt?_cons.mpr ⟨href, u, hget, hx⟩, hrest⟩
    · rintro ⟨x, hx, hrest⟩
      obtain ⟨href, u, hget, hx⟩ := inlineAt?_cons.mp hx
      exact ⟨href, u, hget, ih.mpr ⟨x, hx, hrest⟩⟩

/-- An inline value of a document that repeats no key repeats none. -/
theorem uniqueKeys_of_inlineAt? {v w : Json} {path : List String} (hv : v.UniqueKeys)
    (h : inlineAt? v path = some w) : w.UniqueKeys := by
  induction path generalizing v with
  | nil =>
    rw [inlineAt?, Option.some.injEq] at h
    exact h ▸ hv
  | cons key path ih =>
    obtain ⟨_, u, hget, h⟩ := inlineAt?_cons.mp h
    exact ih (hv.get? hget) h

/-! ### Members that stand inline -/

section

variable {f : String → Option Json} {v : Json}

/-- An object that does not refer is rebuilt member by member. -/
theorem substitute_obj_of_inline {ms : Members} (h : isReference (.obj ms) = false) :
    substitute f (.obj ms) = .obj (ms.map fun p => (p.1, substitute f p.2)) := by
  have hr : refOf? ms = none := Option.isNone_iff_eq_none.mp (by simpa [isReference] using h)
  exact substitute_obj_of_none (by rw [hr, Option.bind_none])

theorem get?_substitute (h : isReference v = false) (key : String) :
    (substitute f v).get? key = (v.get? key).map (substitute f) := by
  cases v with
  | obj ms =>
    rw [substitute_obj_of_inline h]
    exact Members.get?_map (substitute f) ms key
  | null | bool | num | str | arr => rfl

theorem mem_entries_substitute (h : isReference v = false) {key : String} {w : Json} :
    (key, w) ∈ (substitute f v).entries ↔ ∃ u, (key, u) ∈ v.entries ∧ substitute f u = w := by
  cases v with
  | obj ms =>
    rw [substitute_obj_of_inline h, Json.mem_entries, List.mem_map]
    constructor
    · rintro ⟨⟨k, u⟩, hmem, heq⟩
      cases heq
      exact ⟨u, Json.mem_entries.mpr hmem, rfl⟩
    · rintro ⟨u, hmem, rfl⟩
      exact ⟨(key, u), Json.mem_entries.mp hmem, rfl⟩
  | null | bool | num | str | arr => simp [substitute, Json.entries]

/-- With unique keys, the member that a lookup finds is the only one under its key. -/
theorem mem_entries_substitute_iff (hkeys : v.UniqueKeys) (h : isReference v = false)
    {key : String} {u w : Json} (hget : v.get? key = some u) :
    (key, w) ∈ (substitute f v).entries ↔ w = substitute f u := by
  simp only [mem_entries_substitute h, hkeys.mem_entries_iff, hget, Option.some.injEq]
  constructor
  · rintro ⟨_, rfl, rfl⟩
    rfl
  · rintro rfl
    exact ⟨u, rfl, rfl⟩

/-- **Inline values keep their place.** -/
theorem at?_substitute {path : List String} {w : Json} (h : inlineAt? v path = some w) :
    (substitute f v).at? path = some (substitute f w) := by
  induction path generalizing v with
  | nil =>
    rw [inlineAt?, Option.some.injEq] at h
    rw [Json.at?, h]
  | cons key path ih =>
    obtain ⟨href, u, hget, hrest⟩ := inlineAt?_cons.mp h
    rw [Json.at?, get?_substitute href, hget, Option.map_some, Option.bind_some]
    exact ih hrest

end

end SecurityScan.Specification
