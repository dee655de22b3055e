import SecurityScan.Proofs.Replacement
import SecurityScan.Proofs.Occurrence
import SecurityScan.Proofs.Listing

namespace SecurityScan.Specification

/-!
# The calls of the resolver

Which references the resolver is asked for while it goes through a document, at any depth, and what
is known at each of these calls.

* `asked` — the references that rebuilding a value asks for, with the state at each;
* `Call` and `calls` — all calls while a document is rebuilt, those made inside other calls too;
* `rebuild_congr`, `follow_congr` and `rebuild_follow_congr` — a run is settled by the answers to
  what it asks for, and so by where the references of its calls lead: the list of calls leaves out
  none that counts;
* `mem_references_of_mem_calls` — the resolver is only asked for references of the document;
* `length_active_of_mem_calls` — at every call the room left and the open references make up the
  bound on open references;
* `answer_eq_none_iff` — so in a valid document a call is left without an answer only because of the
  bound or because its reference is open.
-/

/-! ### What rebuilding asks for -/

section

variable (F : String → Resolving (Option Json))

mutual

/-- The references that rebuilding a value asks for, in their order, each with what is known when it
    is asked for. -/
def asked : Json → Resolution → List (String × Resolution)
  | .obj ms, s => match refOf? ms with
    | some r => match (F r s).1 with
      | some _ => [(r, s)]
      | none => (r, s) :: askedOfMembers ms (F r s).2
    | none => askedOfMembers ms s
  | .arr vs, s => askedOfItems vs s
  | _, _ => []

/-- The references that rebuilding the items asks for. -/
def askedOfItems : List Json → Resolution → List (String × Resolution)
  | [], _ => []
  | v :: vs, s => asked v s ++ askedOfItems vs (rebuild F v s).2

/-- The references that rebuilding the members' values asks for. -/
def askedOfMembers : List (String × Json) → Resolution → List (String × Resolution)
  | [], _ => []
  | (_, v) :: ms, s => asked v s ++ askedOfMembers ms (rebuild F v s).2

end

theorem asked_obj_none {ms : Members} (h : refOf? ms = none) (s : Resolution) :
    asked F (.obj ms) s = askedOfMembers F ms s := by
  rw [asked, h]

theorem asked_obj_some {ms : Members} {r : String} (h : refOf? ms = some r) (s : Resolution) :
    asked F (.obj ms) s = match (F r s).1 with
      | some _ => [(r, s)]
      | none => (r, s) :: askedOfMembers F ms (F r s).2 := by
  rw [asked, h]

theorem askedOfItems_cons (v : Json) (vs : List Json) (s : Resolution) :
    askedOfItems F (v :: vs) s = asked F v s ++ askedOfItems F vs (rebuild F v s).2 := by
  rw [askedOfItems]

theorem askedOfMembers_cons (k : String) (v : Json) (ms : List (String × Json)) (s : Resolution) :
    askedOfMembers F ((k, v) :: ms) s =
      asked F v s ++ askedOfMembers F ms (rebuild F v s).2 := by
  rw [askedOfMembers]

end

section

variable {F : String → Resolving (Option Json)}

mutual

/-- Rebuilding asks only for references in the value. -/
theorem mem_references_of_mem_asked :
    ∀ (v : Json) (s : Resolution), ∀ q ∈ asked F v s, q.1 ∈ references v
  | .obj ms, s => by
    have hmembers : ∀ s, ∀ q ∈ askedOfMembers F ms s, q.1 ∈ references (.obj ms) := by
      intro s q hq
      obtain ⟨p, hp, hr⟩ := mem_references_of_mem_askedOfMembers ms s q hq
      exact mem_references_obj.mpr ⟨p, hp, .inr hr⟩
    cases hr : refOf? ms with
    | none =>
      rw [asked_obj_none F hr]
      exact hmembers s
    | some r =>
      have hown : r ∈ references (.obj ms) := mem_references_of_refOf? hr
      rw [asked_obj_some F hr]
      cases (F r s).1 with
      | some t => exact List.forall_mem_singleton.mpr hown
      | none => exact List.forall_mem_cons.mpr ⟨hown, hmembers _⟩
  | .arr vs, s => by
    intro q hq
    obtain ⟨v, hv, hr⟩ := mem_references_of_mem_askedOfItems vs s q hq
    exact mem_references_arr.mpr ⟨v, hv, hr⟩
  | .null, _ | .bool _, _ | .num _, _ | .str _, _ => by simp [asked]

theorem mem_references_of_mem_askedOfItems :
    ∀ (vs : List Json) (s : Resolution), ∀ q ∈ askedOfItems F vs s, ∃ v ∈ vs, q.1 ∈ references v
  | [], _ => by simp [askedOfItems]
  | v :: vs, s => by
    intro q hq
    rw [askedOfItems_cons, List.mem_append] at hq
    rcases hq with hq | hq
    · exact ⟨v, List.mem_cons_self, mem_references_of_mem_asked v s q hq⟩
    · obtain ⟨w, hw, hr⟩ := mem_references_of_mem_askedOfItems vs _ q hq
      exact ⟨w, List.mem_cons_of_mem _ hw, hr⟩

theorem mem_references_of_mem_askedOfMembers :
    ∀ (ms : List (String × Json)) (s : Resolution),
      ∀ q ∈ askedOfMembers F ms s, ∃ p ∈ ms, q.1 ∈ references p.2
  | [], _ => by simp [askedOfMembers]
  | (k, v) :: ms, s => by
    intro q hq
    rw [askedOfMembers_cons, List.mem_append] at hq
    rcases hq with hq | hq
    · exact ⟨(k, v), List.mem_cons_self, mem_references_of_mem_asked v s q hq⟩
    · obtain ⟨p, hp, hr⟩ := mem_references_of_mem_askedOfMembers ms _ q hq
      exact ⟨p, List.mem_cons_of_mem _ hp, hr⟩

end

mutual

/-- What every answer to a reference does to the state, the answers before a question have done to
    the state at the question. -/
theorem asked_state {R : Resolution → Resolution → Prop} (h : Respects F R) :
    ∀ (v : Json) (s : Resolution), ∀ q ∈ asked F v s, R s q.2
  | .obj ms, s => by
    cases hr : refOf? ms with
    | none =>
      rw [asked_obj_none F hr]
      exact askedOfMembers_state h ms s
    | some r =>
      have hown : R s s := h.refl s
      have hmembers : ∀ q ∈ askedOfMembers F ms (F r s).2, R s q.2 := fun q hq =>
        h.trans (h.step r s) (askedOfMembers_state h ms _ q hq)
      rw [asked_obj_some F hr]
      cases (F r s).1 with
      | some t => exact List.forall_mem_singleton.mpr hown
      | none => exact List.forall_mem_cons.mpr ⟨hown, hmembers⟩
  | .arr vs, s => askedOfItems_state h vs s
  | .null, _ | .bool _, _ | .num _, _ | .str _, _ => by simp [asked]

theorem askedOfItems_state {R : Resolution → Resolution → Prop} (h : Respects F R) :
    ∀ (vs : List Json) (s : Resolution), ∀ q ∈ askedOfItems F vs s, R s q.2
  | [], _ => by simp [askedOfItems]
  | v :: vs, s => by
    rw [askedOfItems_cons, List.forall_mem_append]
    refine ⟨asked_state h v s, fun q hq => ?_⟩
    exact h.trans (rebuild_state h v s) (askedOfItems_state h vs _ q hq)

theorem askedOfMembers_state {R : Resolution → Resolution → Prop} (h : Respects F R) :
    ∀ (ms : List (String × Json)) (s : Resolution), ∀ q ∈ askedOfMembers F ms s, R s q.2
  | [], _ => by simp [askedOfMembers]
  | (_, v) :: ms, s => by
    rw [askedOfMembers_cons, List.forall_mem_append]
    refine ⟨asked_state h v s, fun q hq => ?_⟩
    exact h.trans (rebuild_state h v s) (askedOfMembers_state h ms _ q hq)

end

variable {G : String → Resolving (Option Json)}

mutual

/-- **A run is settled by the answers to what it asks for.** -/
theorem rebuild_congr : ∀ (v : Json) (s : Resolution),
    (∀ q ∈ asked F v s, F q.1 q.2 = G q.1 q.2) → rebuild F v s = rebuild G v s
  | .obj ms, s => by
    cases hr : refOf? ms with
    | none =>
      rw [asked_obj_none F hr, rebuild_obj_none F hr, rebuild_obj_none G hr]
      intro h
      rw [rebuildMembers_congr ms s h]
    | some r =>
      rw [asked_obj_some F hr, rebuild_obj_some F hr, rebuild_obj_some G hr]
      cases ht : (F r s).1 with
      | some t =>
        intro h
        have hown : F r s = G r s := h (r, s) List.mem_cons_self
        rw [← hown, ht]
      | none =>
        intro h
        obtain ⟨hown, hmembers⟩ := List.forall_mem_cons.mp h
        rw [← hown, ht]
        dsimp only
        rw [rebuildMembers_congr ms _ hmembers]
  | .arr vs, s => fun h => by
    rw [rebuild_arr, rebuild_arr, rebuildItems_congr vs s h]
  | .null, _ | .bool _, _ | .num _, _ | .str _, _ => fun _ => rfl

theorem rebuildItems_congr : ∀ (vs : List Json) (s : Resolution),
    (∀ q ∈ askedOfItems F vs s, F q.1 q.2 = G q.1 q.2) →
      rebuildItems F vs s = rebuildItems G vs s
  | [], _ => fun _ => rfl
  | v :: vs, s => by
    rw [askedOfItems_cons, List.forall_mem_append]
    rintro ⟨hv, hvs⟩
    rw [rebuildItems_cons, rebuildItems_cons, ← rebuild_congr v s hv, rebuildItems_congr vs _ hvs]

theorem rebuildMembers_congr : ∀ (ms : List (String × Json)) (s : Resolution),
    (∀ q ∈ askedOfMembers F ms s, F q.1 q.2 = G q.1 q.2) →
      rebuildMembers F ms s = rebuildMembers G ms s
  | [], _ => fun _ => rfl
  | (k, v) :: ms, s => by
    rw [askedOfMembers_cons, List.forall_mem_append]
    rintro ⟨hv, hms⟩
    rw [rebuildMembers_cons, rebuildMembers_cons, ← rebuild_congr v s hv,
      rebuildMembers_congr ms _ hms]

end

end

/-! ### Calls -/

deriving instance DecidableEq for Resolution

/-- A call of the resolver: the reference it is asked for, how many more references may be open, and
    what is known. -/
structure Call where
  room : Nat
  reference : String
  known : Resolution
deriving DecidableEq

/-- What the resolver of a document answers to a call. -/
def Call.answer (doc : Json) (c : Call) : Option Json :=
  (follow doc c.room c.reference c.known).1

/-- A call and all calls made while it is answered. -/
def callsOf (doc : Json) : (room : Nat) → String → Resolution → List Call
  | 0, r, s => [⟨0, r, s⟩]
  | room + 1, r, s => ⟨room + 1, r, s⟩ ::
    if s.active.contains r then []
    else match s.cache.lookup r with
      | some _ => []
      | none => match targetOf doc r with
        | .error _ => []
        | .ok target => (asked (follow doc room) target ⟨s.cache, r :: s.active⟩).flatMap fun q =>
          callsOf doc room q.1 q.2

/-- All calls made while a document is rebuilt from a state. -/
def calls (doc : Json) (s : Resolution) : List Call :=
  (asked (follow doc maxOpenReferences) doc s).flatMap fun q =>
    callsOf doc maxOpenReferences q.1 q.2

/-- A call itself, or a call that is made while its target is rebuilt. -/
theorem mem_callsOf_succ {doc : Json} {room : Nat} {r : String} {s : Resolution} {c : Call}
    (h : c ∈ callsOf doc (room + 1) r s) : c = ⟨room + 1, r, s⟩ ∨
      ∃ target, targetOf doc r = .ok target ∧
        ∃ q ∈ asked (follow doc room) target ⟨s.cache, r :: s.active⟩,
          c ∈ callsOf doc room q.1 q.2 := by
  rw [callsOf, List.mem_cons] at h
  refine h.imp_right fun h => ?_
  by_cases hopen : s.active.contains r = true
  · rw [if_pos hopen] at h
    cases h
  · rw [if_neg hopen] at h
    cases hc : s.cache.lookup r with
    | some v => simp [hc] at h
    | none =>
      cases ht : targetOf doc r with
      | error _ => simp [hc, ht] at h
      | ok target =>
        simp only [hc, ht, List.mem_flatMap] at h
        exact ⟨target, rfl, h⟩

/-- **What a step keeps, all calls have.** A property of references and states holds of all calls
    made while a reference is answered, if it holds of the reference at the start and passes to what
    is asked for while the target is rebuilt. -/
theorem callsOf_invariant {doc : Json} {P : Nat → String → Resolution → Prop}
    (hstep : ∀ room r s target, P (room + 1) r s → targetOf doc r = .ok target →
      ∀ q ∈ asked (follow doc room) target ⟨s.cache, r :: s.active⟩, P room q.1 q.2)
    (room : Nat) {r : String} {s : Resolution} (h : P room r s) :
    ∀ c ∈ callsOf doc room r s, P c.room c.reference c.known := by
  induction room generalizing r s with
  | zero =>
    intro c hc
    rw [callsOf, List.mem_singleton] at hc
    rw [hc]
    exact h
  | succ room ih =>
    intro c hc
    rcases mem_callsOf_succ hc with rfl | ⟨target, ht, q, hq, hc⟩
    · exact h
    · exact ih (hstep room r s target h ht q hq) c hc

variable {doc : Json}

/-- **The resolver is only asked for references of the document.** -/
theorem mem_references_of_mem_calls {s : Resolution} {c : Call} (h : c ∈ calls doc s) :
    c.reference ∈ references doc := by
  obtain ⟨q, hq, hc⟩ := List.mem_flatMap.mp h
  refine callsOf_invariant (P := fun _ r _ => r ∈ references doc) ?_ maxOpenReferences
    (mem_references_of_mem_asked doc s q hq) c hc
  -- what a reference leads to is part of the document
  intro room r s target _ ht q hq
  exact references_subset_of_targetOf ht (mem_references_of_mem_asked target _ q hq)

/-- **Room and open references.** At every call the room left and the open references make up the
    bound, if none is open at the start. -/
theorem length_active_of_mem_calls {cache : List (String × Json)} {c : Call}
    (h : c ∈ calls doc ⟨cache, []⟩) : c.room + c.known.active.length = maxOpenReferences := by
  obtain ⟨q, hq, hc⟩ := List.mem_flatMap.mp h
  have hactive : q.2.active = [] :=
    (asked_state (follow_respects doc maxOpenReferences) doc _ q hq).active_eq
  refine callsOf_invariant (P := fun room _ s => room + s.active.length = maxOpenReferences) ?_
    maxOpenReferences (by rw [hactive]; rfl) c hc
  intro room r s target hroom _ q hq
  -- what is open while a target is rebuilt is its reference and what was open before
  have hopen : q.2.active = r :: s.active :=
    (asked_state (follow_respects doc room) target _ q hq).active_eq
  rw [hopen, List.length_cons]
  omega

/-- **A run is settled by where the references of its calls lead.** Two documents in which these
    references lead to the same places give the same answers. -/
theorem follow_congr {doc' : Json} (room : Nat) {r : String} {s : Resolution}
    (h : ∀ c ∈ callsOf doc room r s, targetOf doc c.reference = targetOf doc' c.reference) :
    follow doc room r s = follow doc' room r s := by
  induction room generalizing r s with
  | zero => rfl
  | succ room ih =>
    have hown : targetOf doc r = targetOf doc' r := h ⟨room + 1, r, s⟩ (by simp [callsOf])
    rw [follow_succ, follow_succ, ← hown]
    by_cases hopen : s.active.contains r = true
    · rw [if_pos hopen, if_pos hopen]
    · rw [if_neg hopen, if_neg hopen]
      cases hc : s.cache.lookup r with
      | some v => rfl
      | none =>
        cases ht : targetOf doc r with
        | error _ => rfl
        | ok target =>
          have hinner : rebuild (follow doc room) target ⟨s.cache, r :: s.active⟩ =
              rebuild (follow doc' room) target ⟨s.cache, r :: s.active⟩ := by
            refine rebuild_congr target _ fun q hq => ih fun c hcall => h c ?_
            rw [callsOf, if_neg hopen, hc, ht]
            exact List.mem_cons_of_mem _ (List.mem_flatMap.mpr ⟨q, hq, hcall⟩)
          dsimp only
          rw [hinner]

/-- The whole run, too, is settled by where the references of its calls lead. -/
theorem rebuild_follow_congr {doc' : Json} {s : Resolution}
    (h : ∀ c ∈ calls doc s, targetOf doc c.reference = targetOf doc' c.reference) :
    rebuild (follow doc maxOpenReferences) doc s = rebuild (follow doc' maxOpenReferences) doc s := by
  refine rebuild_congr doc s fun q hq => follow_congr maxOpenReferences fun c hc => h c ?_
  exact List.mem_flatMap.mpr ⟨q, hq, hc⟩

/-- A call whose reference leads somewhere is left without an answer only because of the bound or
    because its reference is open. -/
theorem Call.answer_eq_none_iff_of_ok {c : Call} {target : Json}
    (ht : targetOf doc c.reference = .ok target) :
    c.answer doc = none ↔ c.room = 0 ∨ c.reference ∈ c.known.active := by
  obtain ⟨room, r, s⟩ := c
  unfold Call.answer
  cases room with
  | zero => exact ⟨fun _ => .inl rfl, fun _ => rfl⟩
  | succ room =>
    dsimp only at ht ⊢
    rw [follow_succ]
    by_cases hopen : s.active.contains r = true
    · rw [if_pos hopen]
      simpa using hopen
    · rw [if_neg hopen, ht]
      cases s.cache.lookup r <;> simpa using hopen

/-- **No reference of a valid document is broken.** In every call of the resolver while it goes
    through a valid document, at any depth and with anything remembered, the reference leads
    somewhere.  A call is left without an answer exactly if the bound on open references is reached
    or its reference is open. -/
theorem answer_eq_none_iff (hvalid : validate doc = .ok ()) {cache : List (String × Json)}
    {c : Call} (hcall : c ∈ calls doc ⟨cache, []⟩) :
    (∃ target, targetOf doc c.reference = .ok target) ∧
      (c.answer doc = none ↔
        c.known.active.length = maxOpenReferences ∨ c.reference ∈ c.known.active) := by
  -- the validator has looked up every reference that the resolver can be asked for
  obtain ⟨_, _, _, _, _, hreferences, _⟩ := validate_eq_ok_iff.mp hvalid
  obtain ⟨target, ht⟩ := hreferences c.reference (mem_references_of_mem_calls hcall)
  have hlength : c.room + c.known.active.length = maxOpenReferences :=
    length_active_of_mem_calls hcall
  have hroom : c.room = 0 ↔ c.known.active.length = maxOpenReferences := by omega
  refine ⟨⟨target, ht⟩, ?_⟩
  rw [Call.answer_eq_none_iff_of_ok ht, hroom]

/-- A value that refers to itself from inside, and once from outside. -/
def circularDocument : Json := documentWith [
  ("paths", .obj []),
  ("loop", .obj [("again", .obj [(refKey, .str "#/loop")])]),
  ("start", .arr [.obj [(refKey, .str "#/loop")]])]

/-- The call that is made inside the first one, with nothing to hold it up but that one. -/
def innerCall : Call where
  room := maxOpenReferences - 1
  reference := "#/loop"
  known := { cache := [], active := ["#/loop"] }

theorem answer_innerCall :
    (validate circularDocument = .ok () ∧ innerCall ∈ calls circularDocument ⟨[], []⟩) ∧
      innerCall.answer circularDocument = none := by
  have hvalid : validate circularDocument = .ok () :=
    validate_of_paths .openApi30 (by decide +kernel) (by decide) rfl rfl (by decide +kernel) rfl
  have hcall : innerCall ∈ calls circularDocument ⟨[], []⟩ := by decide +kernel
  refine ⟨⟨hvalid, hcall⟩, ?_⟩
  exact (answer_eq_none_iff hvalid hcall).2.mpr (.inr List.mem_cons_self)

end SecurityScan.Specification
