import SecurityScan.Specification.Reference
import SecurityScan.Proofs.UniqueKeys

namespace SecurityScan

/-!
# Parts of a value

What stands somewhere in a value, and what a value passes on to its parts.

* `Json.Part` — a value stands somewhere in another one;
* `Json.part_of_at?`, `Json.part_of_mem_entries` and `Specification.part_of_targetOf` — lookups,
  entries and references lead to parts;
* `Inherited` — a property that passes to the parts of a value, and that a value keeps when its
  parts are exchanged for others that have it;
* `inherited_uniqueKeys` — repeating no key is one.
-/

namespace Json

/-- `Part v w`: the value `w` stands somewhere in `v`, or is `v` itself. -/
inductive Part : Json → Json → Prop where
  | self {v : Json} : Part v v
  | item {vs : List Json} {v w : Json} : v ∈ vs → Part v w → Part (.arr vs) w
  | member {ms : Members} {p : String × Json} {w : Json} :
      p ∈ ms → Part p.2 w → Part (.obj ms) w

theorem Part.trans {u v w : Json} (h : Part u v) (h' : Part v w) : Part u w := by
  induction h with
  | self => exact h'
  | item hmem _ ih => exact .item hmem (ih h')
  | member hmem _ ih => exact .member hmem (ih h')

theorem part_of_get? {v w : Json} {key : String} (h : v.get? key = some w) : Part v w := by
  obtain ⟨ms, rfl, hms⟩ := eq_obj_of_get? h
  exact .member (Members.mem_of_get? hms) .self

theorem part_of_at? {v w : Json} {path : List String} (h : v.at? path = some w) : Part v w := by
  induction path generalizing v with
  | nil =>
    rw [at?, Option.some.injEq] at h
    exact h ▸ .self
  | cons key path ih =>
    obtain ⟨u, hget, hrest⟩ := Option.bind_eq_some_iff.mp h
    exact (part_of_get? hget).trans (ih hrest)

theorem part_of_mem_entries {v w : Json} {key : String} (h : (key, w) ∈ v.entries) : Part v w := by
  cases v with
  | obj ms => exact .member (mem_entries.mp h) .self
  | null | bool | num | str | arr => simp [entries] at h

theorem part_of_child? {v w : Json} {step : String} (h : v.child? step = some w) : Part v w := by
  cases v with
  | obj ms => exact .member (Members.mem_of_get? h) .self
  | arr vs =>
    obtain ⟨i, _, hi⟩ := Option.bind_eq_some_iff.mp h
    exact .item (List.mem_of_getElem? hi) .self
  | null | bool | num | str => cases h

theorem part_of_follow? {v w : Json} {p : Pointer} (h : v.follow? p = some w) : Part v w := by
  induction p generalizing v with
  | nil =>
    rw [follow?, Option.some.injEq] at h
    exact h ▸ .self
  | cons step p ih =>
    obtain ⟨u, hchild, hrest⟩ := Option.bind_eq_some_iff.mp h
    exact (part_of_child? hchild).trans (ih hrest)

end Json

/-- **What a reference leads to is part of its document.** -/
theorem Specification.part_of_targetOf {doc target : Json} {r : String}
    (h : targetOf doc r = .ok target) : doc.Part target := by
  unfold targetOf at h
  split at h
  · next pointer _ =>
    cases hp : doc.pointer? (String.ofList pointer) with
    | none => simp [hp] at h
    | some v =>
      obtain ⟨p, _, hfollow⟩ := Option.bind_eq_some_iff.mp hp
      simp only [hp, Except.ok.injEq] at h
      exact h ▸ Json.part_of_follow? hfollow
  · cases h

/-! ### Inherited properties -/

/-- A property that passes to the parts of a value, and that a value keeps when its parts are
    exchanged for others that have it. -/
structure Inherited (P : Json → Prop) : Prop where
  item : ∀ {vs : List Json}, P (.arr vs) → ∀ v ∈ vs, P v
  member : ∀ {ms : Members}, P (.obj ms) → ∀ p ∈ ms, P p.2
  /-- New items in place of the old ones. -/
  arr : ∀ {vs ws : List Json}, P (.arr vs) → (∀ w ∈ ws, P w) → P (.arr ws)
  /-- New values under the old keys. -/
  obj : ∀ {ms ms' : Members}, P (.obj ms) → ms'.keys = ms.keys → (∀ p ∈ ms', P p.2) → P (.obj ms')

theorem Inherited.of_part {P : Json → Prop} (hP : Inherited P) {v w : Json} (h : v.Part w)
    (hv : P v) : P w := by
  induction h with
  | self => exact hv
  | item hmem _ ih => exact ih (hP.item hv _ hmem)
  | member hmem _ ih => exact ih (hP.member hv _ hmem)

theorem inherited_uniqueKeys : Inherited Json.UniqueKeys where
  item hvs := Json.uniqueKeysItems_iff.mp hvs
  member hms := Json.uniqueKeysMembers_iff.mp hms.2
  arr _ hws := Json.uniqueKeysItems_iff.mpr hws
  obj hms hkeys hms' :=
    ⟨by rw [Members.UniqueKeys, hkeys]; exact hms.1, Json.uniqueKeysMembers_iff.mpr hms'⟩

end SecurityScan
