import SecurityScan.Proofs.Replacement
import Mathlib.Data.Nat.Find

namespace SecurityScan

/-!
# Dereferencing is substitution where references expand

The meaning of references without any bookkeeping, and the documents on which the resolver gives it.

* `Expands doc n v w` — the value `v` expands to `w`, at most `n` references nested on any path;
* `Expands.det` — a value has one expansion, whatever the bound;
* `Ready` — the invariant of a run: what is remembered is expanded, and the value at hand is nested
  less deeply than any open reference;
* `dereference_of_expands` — a document that expands with at most fifty references nested is
  dereferenced to its expansion.
-/

/-- Neither an array nor an object. -/
def Json.isScalar : Json → Bool
  | .arr _ | .obj _ => false
  | _ => true

namespace Specification

/-- `Expands doc n v w`: replacing references until none is left turns the value `v` of `doc` into
    `w`, and at most `n` references are nested along any path. -/
inductive Expands (doc : Json) : Nat → Json → Json → Prop where
  /-- An object that refers to a place of the document expands as the place does. -/
  | reference {n : Nat} {ms : Members} {r : String} {target w : Json} :
      refOf? ms = some r → targetOf doc r = .ok target → Expands doc n target w →
      Expands doc (n + 1) (.obj ms) w
  /-- Any other object keeps its keys and their order. -/
  | object {n : Nat} {ms ms' : Members} :
      (∀ r, refOf? ms = some r → ∀ target, targetOf doc r ≠ .ok target) →
      ms'.keys = ms.keys → (∀ p ∈ ms.zip ms', Expands doc n p.1.2 p.2.2) →
      Expands doc n (.obj ms) (.obj ms')
  /-- An array keeps its length. -/
  | array {n : Nat} {vs ws : List Json} :
      ws.length = vs.length → (∀ p ∈ vs.zip ws, Expands doc n p.1 p.2) →
      Expands doc n (.arr vs) (.arr ws)
  /-- A scalar is its own expansion. -/
  | scalar {n : Nat} {v : Json} : v.isScalar → Expands doc n v v

/-! ### Expansions are unique -/

theorem mem_zip_getElem {α β : Type} {vs : List α} {ws : List β} {i : Nat} (h : i < vs.length)
    (h' : i < ws.length) : (vs[i], ws[i]) ∈ vs.zip ws := by
  have hi : i < (vs.zip ws).length := by rw [List.length_zip]; omega
  rw [← List.getElem_zip (h := hi)]
  exact List.getElem_mem hi

/-- Two lists paired with a third one agree if each of its elements determines its partner. -/
theorem eq_of_zip {α β : Type} {vs : List α} {ws ws' : List β} {P : α → β → Prop}
    (hlen : ws.length = vs.length) (hlen' : ws'.length = vs.length)
    (hdet : ∀ p ∈ vs.zip ws, ∀ b, P p.1 b → p.2 = b) (h' : ∀ p ∈ vs.zip ws', P p.1 p.2) :
    ws = ws' := by
  refine List.ext_getElem (hlen.trans hlen'.symm) fun i hi hi' => ?_
  have hv : i < vs.length := hlen ▸ hi
  exact hdet _ (mem_zip_getElem hv hi) _ (h' _ (mem_zip_getElem hv hi'))

/-- Lists with the same keys have the same length. -/
theorem length_eq_of_keys {ms ms' : Members} (h : ms'.keys = ms.keys) :
    ms'.length = ms.length := by
  have := congrArg List.length h
  simpa [Members.keys] using this

/-- Paired members have the same key if the lists of keys are the same. -/
theorem key_eq_of_mem_zip {ms ms' : Members} (h : ms'.keys = ms.keys) :
    ∀ p ∈ ms.zip ms', p.2.1 = p.1.1 := by
  induction ms generalizing ms' with
  | nil => simp
  | cons m ms ih =>
    cases ms' with
    | nil => simp
    | cons m' ms' =>
      simp only [Members.keys, List.map_cons, List.cons.injEq] at h
      intro p hp
      rcases List.mem_cons.mp hp with rfl | hp
      · exact h.1
      · exact ih h.2 p hp

/-- **Determinism.** A value has at most one expansion, whatever the bounds. -/
theorem Expands.det {doc : Json} {n m : Nat} {v w w' : Json} (h : Expands doc n v w)
    (h' : Expands doc m v w') : w = w' := by
  induction h generalizing m w' with
  | reference hr ht _ ih =>
    cases h' with
    | reference hr' ht' hw' =>
      cases hr.symm.trans hr'
      cases ht.symm.trans ht'
      exact ih hw'
    | object hn' => exact absurd ht (hn' _ hr _)
    | scalar hs => cases hs
  | object hn hkeys _ ih =>
    cases h' with
    | reference hr ht _ => exact absurd ht (hn _ hr _)
    | object _ hkeys' hms' =>
      -- members are paired by position, and the keys agree at every position
      have hpairs := key_eq_of_mem_zip hkeys
      refine congrArg Json.obj (eq_of_zip (length_eq_of_keys hkeys) (length_eq_of_keys hkeys')
        (P := fun p q => q.1 = p.1 ∧ Expands doc m p.2 q.2) ?_ ?_)
      · intro p hp q hq
        exact Prod.ext ((hpairs p hp).trans hq.1.symm) (ih p hp hq.2)
      · exact fun p hp => ⟨key_eq_of_mem_zip hkeys' p hp, hms' p hp⟩
    | scalar hs => cases hs
  | array hlen _ ih =>
    cases h' with
    | array hlen' hvs' =>
      exact congrArg Json.arr (eq_of_zip hlen hlen' (fun p hp _ hb => ih p hp hb) hvs')
    | scalar hs => cases hs
  | scalar hs =>
    cases h' with
    | scalar _ => rfl
    | reference | object | array => cases hs

/-! ### The invariant of a run -/

/-- The resolver may take on a value that expands with `n` references nested: whatever it remembers
    is a whole expansion, and no reference that is open leads to a place that expands with fewer. -/
structure Ready (doc : Json) (n : Nat) (s : Resolution) : Prop where
  complete : ∀ r v, s.cache.lookup r = some v →
    ∃ target m, targetOf doc r = .ok target ∧ Expands doc m target v
  above : ∀ r ∈ s.active, ∀ target, targetOf doc r = .ok target →
    ∀ m < n, ∀ w, ¬ Expands doc m target w

namespace Ready

variable {doc : Json} {n m : Nat} {s s' : Resolution} {r : String} {target w : Json}

/-- At the start nothing is remembered and nothing is open. -/
theorem start (doc : Json) (n : Nat) : Ready doc n ⟨[], []⟩ where
  complete r v hv := by simp at hv
  above r hr := by simp at hr

/-- A reference that is met at the value at hand is not open. -/
theorem not_mem (hs : Ready doc (n + 1) s) (ht : targetOf doc r = .ok target)
    (hw : Expands doc n target w) : r ∉ s.active :=
  fun hmem => hs.above r hmem target ht n (Nat.lt_succ_self n) w hw

/-- What is remembered for a reference is its expansion. -/
theorem eq_of_lookup (hs : Ready doc n s) (ht : targetOf doc r = .ok target)
    (hw : Expands doc m target w) {v : Json} (hv : s.cache.lookup r = some v) : v = w := by
  obtain ⟨target', k, ht', hexp⟩ := hs.complete r v hv
  cases ht.symm.trans ht'
  exact hexp.det hw

/-- A reference is opened with the least bound for its target, so that the target cannot lead back
    to the reference. -/
theorem exists_open (hs : Ready doc (n + 1) s) (ht : targetOf doc r = .ok target)
    (hw : Expands doc n target w) :
    ∃ m ≤ n, Expands doc m target w ∧ Ready doc m ⟨s.cache, r :: s.active⟩ := by
  classical
  have hex : ∃ m, Expands doc m target w := ⟨n, hw⟩
  have hle : Nat.find hex ≤ n := Nat.find_le hw
  refine ⟨Nat.find hex, hle, Nat.find_spec hex, hs.complete, ?_⟩
  intro q hq target' ht' k hk w' hw'
  rcases List.mem_cons.mp hq with rfl | hq
  · -- below the least bound the target does not expand at all
    cases ht.symm.trans ht'
    exact Nat.find_min hex hk (hw.det hw' ▸ hw')
  · exact hs.above q hq target' ht' k (by omega) w' hw'

/-- A reference is closed when its target is expanded. -/
theorem close (hs : Ready doc n s) (hinner : Ready doc m s')
    (hgrows : Resolution.Grows doc ⟨s.cache, r :: s.active⟩ s') (ht : targetOf doc r = .ok target)
    (hw : Expands doc m target w) :
    Ready doc n ⟨(r, w) :: s'.cache, s'.active.erase r⟩ where
  complete q v hv := by
    by_cases hq : q = r
    · subst hq
      rw [List.lookup_cons_self, Option.some.injEq] at hv
      exact ⟨target, m, ht, hv ▸ hw⟩
    · rw [List.lookup_cons, beq_false_of_ne hq] at hv
      exact hinner.complete q v hv
  above := by
    rw [hgrows.active_eq, List.erase_cons_head]
    exact hs.above

end Ready

/-! ### Runs over items and members -/

section

variable {F : String → Resolving (Option Json)} {P : Resolution → Prop}

/-- If every item is rebuilt to its partner and the invariant kept, so are the items. -/
theorem rebuildItems_of_forall {vs ws : List Json} (hlen : ws.length = vs.length)
    (h : ∀ p ∈ vs.zip ws, ∀ s, P s → (rebuild F p.1 s).1 = p.2 ∧ P (rebuild F p.1 s).2)
    (s : Resolution) (hs : P s) :
    (rebuildItems F vs s).1 = ws ∧ P (rebuildItems F vs s).2 := by
  induction vs generalizing ws s with
  | nil =>
    rw [List.length_nil, List.length_eq_zero_iff] at hlen
    exact ⟨hlen.symm, hs⟩
  | cons v vs ih =>
    cases ws with
    | nil => simp at hlen
    | cons w ws =>
      obtain ⟨hv, hmid⟩ := h (v, w) (by simp) s hs
      obtain ⟨hvs, hend⟩ := ih (by simpa using hlen)
        (fun p hp => h p (by simp [hp])) (rebuild F v s).2 hmid
      rw [rebuildItems_cons]
      exact ⟨by rw [hv, hvs], hend⟩

/-- If every member's value is rebuilt to its partner's and the invariant kept, so are the
    members. -/
theorem rebuildMembers_of_forall {ms ms' : Members} (hkeys : ms'.keys = ms.keys)
    (h : ∀ p ∈ ms.zip ms', ∀ s, P s →
      (rebuild F p.1.2 s).1 = p.2.2 ∧ P (rebuild F p.1.2 s).2)
    (s : Resolution) (hs : P s) :
    (rebuildMembers F ms s).1 = ms' ∧ P (rebuildMembers F ms s).2 := by
  induction ms generalizing ms' s with
  | nil =>
    rw [Members.keys, Members.keys, List.map_nil, List.map_eq_nil_iff] at hkeys
    exact ⟨hkeys.symm, hs⟩
  | cons m ms ih =>
    obtain ⟨k, v⟩ := m
    cases ms' with
    | nil => simp [Members.keys] at hkeys
    | cons m' ms' =>
      obtain ⟨k', w⟩ := m'
      simp only [Members.keys, List.map_cons, List.cons.injEq] at hkeys
      obtain ⟨hv, hmid⟩ := h ((k, v), (k', w)) (by simp) s hs
      obtain ⟨hms, hend⟩ := ih hkeys.2 (fun p hp => h p (by simp [hp])) (rebuild F v s).2 hmid
      rw [rebuildMembers_cons]
      exact ⟨by rw [hv, hms, hkeys.1], hend⟩

end

/-! ### The resolver on what expands -/

/-- A reference that leads nowhere stays, and nothing is remembered of it. -/
theorem follow_of_broken {doc : Json} {n : Nat} {r : String} {s : Resolution} (room : Nat)
    (hs : Ready doc n s) (hr : ∀ target, targetOf doc r ≠ .ok target) :
    follow doc room r s = (none, s) := by
  cases room with
  | zero => rfl
  | succ room =>
    rw [follow_succ]
    by_cases hopen : s.active.contains r = true
    · rw [if_pos hopen]
    · rw [if_neg hopen]
      cases hc : s.cache.lookup r with
      | some v =>
        obtain ⟨target, _, ht, _⟩ := hs.complete r v hc
        exact absurd ht (hr target)
      | none =>
        cases ht : targetOf doc r with
        | error _ => rfl
        | ok target => exact absurd ht (hr target)

/-- **Step.** If the resolver with less room expands whatever it is ready for, it answers a
    reference with the expansion of its target. -/
theorem follow_of_expands {doc : Json} {room n : Nat}
    (ih : ∀ m ≤ room, ∀ v w s, Expands doc m v w → Ready doc m s →
      (rebuild (follow doc room) v s).1 = w ∧ Ready doc m (rebuild (follow doc room) v s).2)
    (hn : n ≤ room) {r : String} {target w : Json} (ht : targetOf doc r = .ok target)
    (hw : Expands doc n target w) {s : Resolution} (hs : Ready doc (n + 1) s) :
    (follow doc (room + 1) r s).1 = some w ∧
      Ready doc (n + 1) (follow doc (room + 1) r s).2 := by
  rw [follow_succ, if_neg (by simpa using hs.not_mem ht hw)]
  cases hc : s.cache.lookup r with
  | some v => exact ⟨congrArg some (hs.eq_of_lookup ht hw hc), hs⟩
  | none =>
    obtain ⟨m, hm, hwm, hopen⟩ := hs.exists_open ht hw
    obtain ⟨hv, hinner⟩ := ih m (Nat.le_trans hm hn) target w _ hwm hopen
    have hgrows := rebuild_state (follow_respects doc room) target ⟨s.cache, r :: s.active⟩
    rw [ht]
    dsimp only
    rw [hv]
    exact ⟨rfl, hs.close hinner hgrows ht hwm⟩

/-- If references are answered with expansions while there is room, a run with as much room as
    references are nested ends in the expansion. -/
theorem rebuild_of_answers {doc : Json} {F : String → Resolving (Option Json)} {room : Nat}
    (hok : ∀ n < room, ∀ r target w s, targetOf doc r = .ok target → Expands doc n target w →
      Ready doc (n + 1) s → (F r s).1 = some w ∧ Ready doc (n + 1) (F r s).2)
    (hbroken : ∀ n r s, Ready doc n s → (∀ target, targetOf doc r ≠ .ok target) →
      F r s = (none, s))
    {n : Nat} {v w : Json} (h : Expands doc n v w) (hn : n ≤ room) :
    ∀ s, Ready doc n s → (rebuild F v s).1 = w ∧ Ready doc n (rebuild F v s).2 := by
  -- on the derivation: only its references use up room
  induction h with
  | @reference n ms r target w hr ht hw _ =>
    intro s hs
    obtain ⟨ha, hready⟩ := hok n hn r target w s ht hw hs
    rw [rebuild_obj_some F hr, ha]
    exact ⟨rfl, hready⟩
  | @object n ms ms' hnot hkeys _ ih =>
    intro s hs
    obtain ⟨hms, hready⟩ := rebuildMembers_of_forall hkeys (fun p hp => ih p hp hn) s hs
    cases hr : refOf? ms with
    | none =>
      rw [rebuild_obj_none F hr]
      exact ⟨congrArg Json.obj hms, hready⟩
    | some r =>
      -- the reference leads nowhere and leaves the state to the members
      rw [rebuild_obj_some F hr, hbroken n r s hs (hnot r hr)]
      exact ⟨congrArg Json.obj hms, hready⟩
  | array hlen _ ih =>
    intro s hs
    obtain ⟨hvs, hready⟩ := rebuildItems_of_forall hlen (fun p hp => ih p hp hn) s hs
    rw [rebuild_arr]
    exact ⟨congrArg Json.arr hvs, hready⟩
  | @scalar n v hv =>
    intro s hs
    cases v with
    | arr | obj => cases hv
    | null | bool | num | str => exact ⟨rfl, hs⟩

/-- **Run.** With room for the references nested in a value, the resolver turns the value into its
    expansion and stays ready. -/
theorem rebuild_of_expands {doc : Json} (room : Nat) :
    ∀ n ≤ room, ∀ v w s, Expands doc n v w → Ready doc n s →
      (rebuild (follow doc room) v s).1 = w ∧ Ready doc n (rebuild (follow doc room) v s).2 := by
  induction room with
  | zero =>
    intro n hn v w s h hs
    exact rebuild_of_answers (fun m hm => absurd hm (Nat.not_lt_zero m))
      (fun _ _ _ => follow_of_broken 0) h hn s hs
  | succ room ih =>
    intro n hn v w s h hs
    refine rebuild_of_answers (fun m hm r target w s ht hw hs => ?_)
      (fun _ _ _ => follow_of_broken (room + 1)) h hn s hs
    exact follow_of_expands ih (Nat.lt_succ_iff.mp hm) ht hw hs

/-- **Dereferencing is substitution.** A document that expands with at most fifty references nested
    along any path is dereferenced to its expansion: neither the look for circles nor the bound on
    open references nor what is remembered shows. -/
theorem dereference_of_expands {doc w : Json} (h : Expands doc 50 doc w) : dereference doc = w := by
  have hready : Ready doc 50 ⟨[], []⟩ := .start doc 50
  exact (rebuild_of_expands maxOpenReferences 50 (Nat.le_refl 50) doc w _ h hready).1

/-- An object that refers and holds nothing else. -/
def refTo (r : String) : Json := .obj [(refKey, .str r)]

/-- A leaf that is shared, referred to through another reference and spelt in two ways, next to
    references that lead nowhere. -/
def sharingDocument : Json := .obj [
  ("leaf", .obj [("a~b", .bool true)]),
  ("chain", .obj [(refKey, .str "#/leaf"), ("dropped", .null)]),
  ("uses", .arr [refTo "#/chain", refTo "#/leaf/a~b", refTo "#/leaf/a~0b", refTo "other#/leaf",
    .obj [(refKey, .str "#/none"), ("to", refTo "#/leaf")]])]

/-- What the document expands to. -/
def sharingExpansion : Json :=
  let leaf : Json := .obj [("a~b", .bool true)]
  .obj [("leaf", leaf), ("chain", leaf),
    ("uses", .arr [leaf, .bool true, .bool true, refTo "other#/leaf",
      .obj [(refKey, .str "#/none"), ("to", leaf)]])]

theorem dereference_sharingDocument :
    Expands sharingDocument 50 sharingDocument sharingExpansion ∧
      dereference sharingDocument = sharingExpansion := by
  have hleaf : ∀ n, Expands sharingDocument n (.obj [("a~b", .bool true)])
      (.obj [("a~b", .bool true)]) := fun n =>
    .object (by simp [refOf?, Members.get?, refKey]) rfl (by simpa using .scalar rfl)
  have hto : ∀ n, Expands sharingDocument (n + 1) (refTo "#/leaf") (.obj [("a~b", .bool true)]) :=
    fun n => .reference rfl rfl (hleaf n)
  have hchain : ∀ n, Expands sharingDocument (n + 1)
      (.obj [(refKey, .str "#/leaf"), ("dropped", .null)]) (.obj [("a~b", .bool true)]) :=
    fun n => .reference rfl rfl (hleaf n)
  have hexternal : Expands sharingDocument 50 (refTo "other#/leaf") (refTo "other#/leaf") :=
    .object (by rintro r hr target ht; cases hr; cases ht) rfl (by simpa using .scalar rfl)
  have hdangling : Expands sharingDocument 50
      (.obj [(refKey, .str "#/none"), ("to", refTo "#/leaf")])
      (.obj [(refKey, .str "#/none"), ("to", .obj [("a~b", .bool true)])]) :=
    .object (by rintro r hr target ht; cases hr; cases ht) rfl
      (by simpa using ⟨.scalar rfl, hto 49⟩)
  have huses : Expands sharingDocument 50
      (.arr [refTo "#/chain", refTo "#/leaf/a~b", refTo "#/leaf/a~0b", refTo "other#/leaf",
        .obj [(refKey, .str "#/none"), ("to", refTo "#/leaf")]])
      (.arr [.obj [("a~b", .bool true)], .bool true, .bool true, refTo "other#/leaf",
        .obj [(refKey, .str "#/none"), ("to", .obj [("a~b", .bool true)])]]) :=
    .array rfl (by
      simpa using ⟨.reference rfl rfl (hchain 48), .reference rfl rfl (.scalar rfl),
        .reference rfl rfl (.scalar rfl), hexternal, hdangling⟩)
  have h : Expands sharingDocument 50 sharingDocument sharingExpansion :=
    .object (by intro r hr; cases hr) rfl
      (by simpa using ⟨hleaf 50, hchain 49, huses⟩)
  exact ⟨h, dereference_of_expands h⟩

end Specification

end SecurityScan
