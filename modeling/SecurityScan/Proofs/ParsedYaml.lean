import SecurityScan.Yaml.Expansion

namespace SecurityScan.Yaml

/-!
# What holds of every YAML value that is read

A value is read from its node step by step: scalars are made from their texts, collections from
their parts, and a mapping that repeats a key is refused.  What these steps keep holds of every
value of a text.

* `Expansion.Yields` — what holds of every value that a computation on YAML nodes yields;
* `IsScalar` — what scalars stand for;
* `Closed` — a property that scalars have and that collections and tagged values get from their
  parts; `Closed.of_parse?` — every value of a text has such a property;
* `Holds` and `Part` — a value stands in another one, among its values or anywhere;
* `distinctKeys_of_parse?` — the keys of a mapping that was read are all different.
-/

/-! ### Computations on nodes -/

namespace Expansion

variable {α β : Type} {P : α → Prop} {Q : β → Prop}

/-- Whatever the computation yields has the property. -/
def Yields (m : Expansion α) (P : α → Prop) : Prop :=
  ∀ count a count', m.run count = some (a, count') → P a

theorem yields_pure {a : α} (h : P a) : Yields (pure a) P := by
  intro count b count' hrun
  cases hrun
  exact h

theorem yields_failure : Yields (failure : Expansion α) P := by
  intro count a count' hrun
  cases hrun

theorem yields_bind {m : Expansion α} {k : α → Expansion β} (hm : Yields m P)
    (hk : ∀ a, P a → Yields (k a) Q) : Yields (m >>= k) Q := by
  intro count b count' hrun
  rw [StateT.run_bind] at hrun
  obtain ⟨⟨a, count''⟩, ha, hb⟩ := Option.bind_eq_some_iff.mp hrun
  exact hk a (hm _ _ _ ha) _ _ _ hb

/-- Nothing is known of the value. -/
theorem yields_true (m : Expansion α) : Yields m fun _ => True := fun _ _ _ _ => trivial

theorem yields_mapM {f : β → Expansion α} (hf : ∀ b, Yields (f b) P) (bs : List β) :
    Yields (bs.mapM f) fun as => ∀ a ∈ as, P a := by
  induction bs with
  | nil => exact yields_pure (by simp)
  | cons b bs ih =>
    rw [List.mapM_cons]
    refine yields_bind (hf b) fun a ha => yields_bind ih fun as has => ?_
    exact yields_pure (List.forall_mem_cons.mpr ⟨ha, has⟩)

end Expansion

open Expansion

/-! ### Scalars -/

/-- What a scalar can stand for. -/
inductive IsScalar : Yaml → Prop where
  | null : IsScalar .null
  | bool (b : Bool) : IsScalar (.bool b)
  | int {i : Int} : fitsWord i = true → IsScalar (.num (.int i))
  | float (x : Float) : IsScalar (.num (.float x))
  | str (s : String) : IsScalar (.str s)

theorem isScalar_of_ofPlain {s : String} {v : Yaml} (h : ofPlain s = some v) : IsScalar v := by
  unfold ofPlain at h
  dsimp only at h
  split at h
  · cases h
    exact .null
  · split at h
    · cases h
      exact .bool _
    · split at h
      · split at h
        · next hfits =>
          cases h
          exact .int hfits
        · cases h
      · split at h
        · cases h
          exact .str s
        · split at h <;> cases h
          · exact .float _
          · exact .str s

theorem isScalar_of_ofScalar {tag : Option String} {plain : Bool} {s : String} {v : Yaml}
    (h : ofScalar tag plain s = some v) : IsScalar v := by
  unfold ofScalar at h
  split at h
  · split at h
    · obtain ⟨b, _, rfl⟩ := Option.map_eq_some_iff.mp h
      exact .bool b
    · split at h
      · split at h
        · next hint =>
          cases h
          exact .int (Option.filter_eq_some_iff.mp hint).2
        · cases h
      · split at h
        · obtain ⟨x, _, rfl⟩ := Option.map_eq_some_iff.mp h
          exact .float x
        · split at h
          · split at h <;> cases h
            exact .null
          · cases h
            exact .str s
  · split at h
    · exact isScalar_of_ofPlain h
    · cases h
      exact .str s

/-! ### Properties that reading keeps -/

/-- No two keys of the entries are the same key. -/
def DistinctKeys (es : List (Yaml × Yaml)) : Prop :=
  es.Pairwise fun e f => e.1.same f.1 = false

theorem distinctKeys_concat {es : List (Yaml × Yaml)} {e : Yaml × Yaml} :
    DistinctKeys (es ++ [e]) ↔ DistinctKeys es ∧ ∀ d ∈ es, d.1.same e.1 = false := by
  simp only [DistinctKeys, List.pairwise_append, List.pairwise_singleton, List.mem_singleton,
    forall_eq, true_and]

/-- A property that scalars have, and that collections and tagged values get from their parts. -/
structure Closed (P : Yaml → Prop) : Prop where
  scalar : ∀ {v : Yaml}, IsScalar v → P v
  seq : ∀ {vs : List Yaml}, (∀ v ∈ vs, P v) → P (.seq vs)
  map : ∀ {es : List (Yaml × Yaml)}, DistinctKeys es → (∀ e ∈ es, P e.1 ∧ P e.2) → P (.map es)
  tagged : ∀ {t : String} {v : Yaml}, P v → P (.tagged t v)

namespace Closed

variable {P : Yaml → Prop}

theorem wrap (hP : Closed P) {v : Yaml} (tag : Option String) (h : P v) : P (Node.wrap tag v) := by
  unfold Node.wrap
  split
  · exact hP.tagged h
  · exact h

/-- The entries that are read have different keys if those read before them have. -/
theorem yields_entries {value : Node → Expansion Yaml} (hvalue : ∀ node, Yields (value node) P)
    (es : List (Node × Node)) (done : List (Yaml × Yaml)) (hkeys : DistinctKeys done.reverse)
    (hdone : ∀ e ∈ done, P e.1 ∧ P e.2) :
    Yields (Node.entries value es done) fun es => DistinctKeys es ∧ ∀ e ∈ es, P e.1 ∧ P e.2 := by
  induction es generalizing done with
  | nil => exact yields_pure ⟨hkeys, by simpa using hdone⟩
  | cons e es ih =>
    obtain ⟨k, v⟩ := e
    rw [Node.entries]
    refine yields_bind (hvalue k) fun key hkey => ?_
    split
    · -- a key that is already there
      exact yields_bind (yields_failure (P := fun _ => False)) fun _ h => h.elim
    · next hnew =>
      refine yields_bind (hvalue v) fun w hw => ih _ ?_ ?_
      · rw [List.reverse_cons, distinctKeys_concat]
        refine ⟨hkeys, fun d hd => Bool.eq_false_iff.mpr fun hsame => ?_⟩
        exact hnew (List.any_eq_true.mpr ⟨d, List.mem_reverse.mp hd, hsame⟩)
      · exact List.forall_mem_cons.mpr ⟨⟨hkey, hw⟩, hdone⟩

theorem yields_value (hP : Closed P) (table : AliasTable) (room : Nat) :
    ∀ node : Node, Yields (node.value table room) P := by
  induction room with
  | zero =>
    intro node
    rw [Node.value]
    refine yields_bind (yields_true _) fun target _ => ?_
    split
    · split
      · next hv => exact yields_pure (hP.wrap _ (hP.scalar (isScalar_of_ofScalar hv)))
      · exact yields_failure
    · exact yields_failure
  | succ room ih =>
    intro node
    rw [Node.value]
    refine yields_bind (yields_true _) fun target _ => ?_
    split
    · split
      · next hv => exact yields_pure (hP.wrap _ (hP.scalar (isScalar_of_ofScalar hv)))
      · exact yields_failure
    · exact yields_bind (yields_mapM ih _) fun vs hvs => yields_pure (hP.wrap _ (hP.seq hvs))
    · exact yields_bind (yields_entries ih _ [] List.Pairwise.nil (by simp)) fun es hes =>
        yields_pure (hP.wrap _ (hP.map hes.1 hes.2))
    · exact yields_failure

/-- **Every value of a text** has a property that reading keeps. -/
theorem of_parse? (hP : Closed P) {text : String} {v : Yaml} (h : parse? text = some v) : P v := by
  simp only [parse?, Option.bind_eq_bind, Option.bind_eq_some_iff] at h
  obtain ⟨tokens, _, root, _, h⟩ := h
  split at h
  · cases h
    exact hP.scalar .null
  · simp only [Option.bind_eq_some_iff, Prod.exists, Option.pure_def, Option.some.injEq] at h
    obtain ⟨w, count, hw, rfl⟩ := h
    exact hP.yields_value _ _ _ _ _ _ hw

end Closed

/-! ### Values in a value -/

/-- `Holds v w`: the value `w` is `v` itself or stands among the values in it, but in no key. -/
inductive Holds : Yaml → Yaml → Prop where
  | self {v : Yaml} : Holds v v
  | item {vs : List Yaml} {v w : Yaml} : v ∈ vs → Holds v w → Holds (.seq vs) w
  | value {es : List (Yaml × Yaml)} {e : Yaml × Yaml} {w : Yaml} :
      e ∈ es → Holds e.2 w → Holds (.map es) w
  | tagged {t : String} {v w : Yaml} : Holds v w → Holds (.tagged t v) w

/-- `Part v w`: the value `w` is `v` itself or stands anywhere in it, in a key or in a value. -/
inductive Part : Yaml → Yaml → Prop where
  | self {v : Yaml} : Part v v
  | item {vs : List Yaml} {v w : Yaml} : v ∈ vs → Part v w → Part (.seq vs) w
  | key {es : List (Yaml × Yaml)} {e : Yaml × Yaml} {w : Yaml} :
      e ∈ es → Part e.1 w → Part (.map es) w
  | value {es : List (Yaml × Yaml)} {e : Yaml × Yaml} {w : Yaml} :
      e ∈ es → Part e.2 w → Part (.map es) w
  | tagged {t : String} {v w : Yaml} : Part v w → Part (.tagged t v) w

theorem Holds.part {v w : Yaml} (h : Holds v w) : Part v w := by
  induction h with
  | self => exact .self
  | item hmem _ ih => exact .item hmem ih
  | value hmem _ ih => exact .value hmem ih
  | tagged _ ih => exact .tagged ih

/-! ### Keys of mappings that were read -/

theorem closed_distinctKeys : Closed fun v => ∀ es, v.Part (.map es) → DistinctKeys es where
  scalar hv es hpart := by cases hv <;> cases hpart
  seq hvs es hpart := by
    cases hpart with
    | item hmem hpart => exact hvs _ hmem es hpart
  map hkeys hes es hpart := by
    cases hpart with
    | self => exact hkeys
    | key hmem hpart => exact (hes _ hmem).1 es hpart
    | value hmem hpart => exact (hes _ hmem).2 es hpart
  tagged hv es hpart := by
    cases hpart with
    | tagged hpart => exact hv es hpart

/-- **Keys that were read.** The keys of a mapping are all different wherever it stands in a value
    that was read from a text. -/
theorem distinctKeys_of_parse? {text : String} {v : Yaml} {es : List (Yaml × Yaml)}
    (h : parse? text = some v) (hpart : v.Part (.map es)) : DistinctKeys es :=
  closed_distinctKeys.of_parse? h es hpart

end SecurityScan.Yaml
