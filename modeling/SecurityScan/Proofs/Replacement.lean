import SecurityScan.Specification.Reference

namespace SecurityScan.Specification

/-!
# Runs of the resolver

What one reference does to the state of the resolver, and what follows for a whole document.

* `follow_succ`, `rebuild_obj_some`, … — the steps of a run as equations between states;
* `rebuild_state` — a preorder on states that every reference respects is respected by a run;
* `substitute` — a value with its references replaced by a function, without any state;
* `rebuild_eq_substitute` — a run whose references are all answered by one function is a
  substitution;
* `replacement` — what the resolver holds for a reference once it has gone through the document;
* `dereference_eq_substitute` — the dereferenced document is the document with each outermost
  reference replaced by that.
-/

/-! ### Steps -/

theorem follow_succ (doc : Json) (room : Nat) (r : String) (s : Resolution) :
    follow doc (room + 1) r s =
      if s.active.contains r then (none, s)
      else match s.cache.lookup r with
        | some v => (some v, s)
        | none => match targetOf doc r with
          | .error _ => (none, s)
          | .ok target =>
            let inner := rebuild (follow doc room) target ⟨s.cache, r :: s.active⟩
            (some inner.1, ⟨(r, inner.1) :: inner.2.cache, inner.2.active.erase r⟩) := by
  simp only [follow, bind, StateT.bind, get, getThe, MonadStateOf.get, StateT.get, pure, Id]
  by_cases h : s.active.contains r = true
  · simp only [h, if_true]; rfl
  · simp only [h]
    cases hc : s.cache.lookup r with
    | some v => rfl
    | none => cases ht : targetOf doc r <;> rfl

section

variable (F : String → Resolving (Option Json))

theorem rebuild_obj_none {ms : Members} (h : refOf? ms = none) (s : Resolution) :
    rebuild F (.obj ms) s = (.obj (rebuildMembers F ms s).1, (rebuildMembers F ms s).2) := by
  rw [rebuild, h]; rfl

theorem rebuild_obj_some {ms : Members} {r : String} (h : refOf? ms = some r) (s : Resolution) :
    rebuild F (.obj ms) s = match (F r s).1 with
      | some t => (t, (F r s).2)
      | none => (.obj (rebuildMembers F ms (F r s).2).1, (rebuildMembers F ms (F r s).2).2) := by
  rw [rebuild, h]
  simp only [bind, StateT.bind]
  rcases F r s with ⟨_ | t, s'⟩ <;> rfl

theorem rebuild_arr (vs : List Json) (s : Resolution) :
    rebuild F (.arr vs) s = (.arr (rebuildItems F vs s).1, (rebuildItems F vs s).2) := rfl

theorem rebuildItems_cons (v : Json) (vs : List Json) (s : Resolution) :
    rebuildItems F (v :: vs) s =
      ((rebuild F v s).1 :: (rebuildItems F vs (rebuild F v s).2).1,
        (rebuildItems F vs (rebuild F v s).2).2) := rfl

theorem rebuildMembers_cons (k : String) (v : Json) (ms : List (String × Json)) (s : Resolution) :
    rebuildMembers F ((k, v) :: ms) s =
      ((k, (rebuild F v s).1) :: (rebuildMembers F ms (rebuild F v s).2).1,
        (rebuildMembers F ms (rebuild F v s).2).2) := rfl

end

/-! ### What a run does to the state -/

/-- `R` is a preorder on states, and every answer to a reference moves the state along it. -/
structure Respects (F : String → Resolving (Option Json)) (R : Resolution → Resolution → Prop) :
    Prop where
  refl : ∀ s, R s s
  trans : ∀ {s₁ s₂ s₃}, R s₁ s₂ → R s₂ s₃ → R s₁ s₃
  step : ∀ r s, R s (F r s).2

section

variable {F : String → Resolving (Option Json)} {R : Resolution → Resolution → Prop}

mutual

/-- **State lemma.** What every answer to a reference does to the state, a run does to it. -/
theorem rebuild_state (h : Respects F R) :
    ∀ (v : Json) (s : Resolution), R s (rebuild F v s).2
  | .obj ms, s => by
    cases hr : refOf? ms with
    | none =>
      rw [rebuild_obj_none F hr]
      exact rebuildMembers_state h ms s
    | some r =>
      rw [rebuild_obj_some F hr]
      -- a reference that stays is followed by the members beside it
      have hmembers : R s (rebuildMembers F ms (F r s).2).2 :=
        h.trans (h.step r s) (rebuildMembers_state h ms (F r s).2)
      cases (F r s).1 with
      | some t => exact h.step r s
      | none => exact hmembers
  | .arr vs, s => rebuildItems_state h vs s
  | .null, s | .bool _, s | .num _, s | .str _, s => h.refl s

theorem rebuildItems_state (h : Respects F R) :
    ∀ (vs : List Json) (s : Resolution), R s (rebuildItems F vs s).2
  | [], s => h.refl s
  | v :: vs, s => h.trans (rebuild_state h v s) (rebuildItems_state h vs (rebuild F v s).2)

theorem rebuildMembers_state (h : Respects F R) :
    ∀ (ms : List (String × Json)) (s : Resolution), R s (rebuildMembers F ms s).2
  | [], s => h.refl s
  | (_, v) :: ms, s => h.trans (rebuild_state h v s) (rebuildMembers_state h ms (rebuild F v s).2)

end

end

/-! ### Substitution -/

mutual

/-- The value with every object that refers replaced by what `f` gives for its reference, if `f`
    gives something.  What `f` gives is not looked into again. -/
def substitute (f : String → Option Json) : Json → Json
  | .obj ms => match (refOf? ms).bind f with
    | some t => t
    | none => .obj (substituteMembers f ms)
  | .arr vs => .arr (substituteItems f vs)
  | v => v

/-- The items with their references replaced. -/
def substituteItems (f : String → Option Json) : List Json → List Json
  | [] => []
  | v :: vs => substitute f v :: substituteItems f vs

/-- The members' values with their references replaced. -/
def substituteMembers (f : String → Option Json) : List (String × Json) → List (String × Json)
  | [] => []
  | (k, v) :: ms => (k, substitute f v) :: substituteMembers f ms

end

theorem substituteItems_eq_map (f : String → Option Json) (vs : List Json) :
    substituteItems f vs = vs.map (substitute f) := by
  induction vs with
  | nil => rfl
  | cons v vs ih => simp [substituteItems, ih]

theorem substituteMembers_eq_map (f : String → Option Json) (ms : Members) :
    substituteMembers f ms = ms.map fun p => (p.1, substitute f p.2) := by
  induction ms with
  | nil => rfl
  | cons p ms ih => simp [substituteMembers, ih]

theorem substitute_obj_of_none {f : String → Option Json} {ms : Members}
    (h : (refOf? ms).bind f = none) :
    substitute f (.obj ms) = .obj (ms.map fun p => (p.1, substitute f p.2)) := by
  rw [substitute, h, substituteMembers_eq_map]

theorem substitute_obj_of_some {f : String → Option Json} {ms : Members} {t : Json}
    (h : (refOf? ms).bind f = some t) : substitute f (.obj ms) = t := by
  rw [substitute, h]

section

variable {F : String → Resolving (Option Json)} {R : Resolution → Resolution → Prop}
  {f : String → Option Json} {s₀ s₁ : Resolution}

mutual

/-- **Value lemma.** If `f` says how references are answered by every state between `s₀` and `s₁`,
    a run that stays between them is the substitution of `f`. -/
theorem rebuild_eq_substitute (h : Respects F R)
    (hf : ∀ r s, R s₀ s → R (F r s).2 s₁ → (F r s).1 = f r) :
    ∀ (v : Json) (s : Resolution), R s₀ s → R (rebuild F v s).2 s₁ →
      (rebuild F v s).1 = substitute f v
  | .obj ms, s, hs, hend => by
    cases hr : refOf? ms with
    | none =>
      rw [rebuild_obj_none F hr] at hend ⊢
      rw [substitute, hr]
      exact congrArg Json.obj (rebuildMembers_eq_substituteMembers h hf ms s hs hend)
    | some r =>
      rw [rebuild_obj_some F hr] at hend ⊢
      cases ht : (F r s).1 with
      | some t =>
        rw [ht] at hend
        have hfr : f r = some t := by rw [← hf r s hs hend, ht]
        rw [substitute, hr, Option.bind_some, hfr]
      | none =>
        rw [ht] at hend
        -- the answer comes before the members, so its state is still below `s₁`
        have hafter : R (F r s).2 s₁ :=
          h.trans (rebuildMembers_state h ms (F r s).2) hend
        have hfr : f r = none := by rw [← hf r s hs hafter, ht]
        rw [substitute, hr, Option.bind_some, hfr]
        exact congrArg Json.obj (rebuildMembers_eq_substituteMembers h hf ms (F r s).2
          (h.trans hs (h.step r s)) hend)
  | .arr vs, s, hs, hend =>
    congrArg Json.arr (rebuildItems_eq_substituteItems h hf vs s hs hend)
  | .null, _, _, _ | .bool _, _, _, _ | .num _, _, _, _ | .str _, _, _, _ => rfl

theorem rebuildItems_eq_substituteItems (h : Respects F R)
    (hf : ∀ r s, R s₀ s → R (F r s).2 s₁ → (F r s).1 = f r) :
    ∀ (vs : List Json) (s : Resolution), R s₀ s → R (rebuildItems F vs s).2 s₁ →
      (rebuildItems F vs s).1 = substituteItems f vs
  | [], _, _, _ => rfl
  | v :: vs, s, hs, hend => by
    have hv : R s (rebuild F v s).2 := rebuild_state h v s
    have hmid : R (rebuild F v s).2 s₁ := h.trans (rebuildItems_state h vs _) hend
    rw [rebuildItems_cons, substituteItems, rebuild_eq_substitute h hf v s hs hmid,
      rebuildItems_eq_substituteItems h hf vs _ (h.trans hs hv) hend]

theorem rebuildMembers_eq_substituteMembers (h : Respects F R)
    (hf : ∀ r s, R s₀ s → R (F r s).2 s₁ → (F r s).1 = f r) :
    ∀ (ms : List (String × Json)) (s : Resolution), R s₀ s → R (rebuildMembers F ms s).2 s₁ →
      (rebuildMembers F ms s).1 = substituteMembers f ms
  | [], _, _, _ => rfl
  | (k, v) :: ms, s, hs, hend => by
    have hv : R s (rebuild F v s).2 := rebuild_state h v s
    have hmid : R (rebuild F v s).2 s₁ := h.trans (rebuildMembers_state h ms _) hend
    rw [rebuildMembers_cons, substituteMembers, rebuild_eq_substitute h hf v s hs hmid,
      rebuildMembers_eq_substituteMembers h hf ms _ (h.trans hs hv) hend]

end

end

/-- If no answer at the state `s` changes the state, a run from `s` is a substitution. -/
theorem rebuild_of_stateless {F : String → Resolving (Option Json)} {f : String → Option Json}
    {s : Resolution} (hF : ∀ r, F r s = (f r, s)) (v : Json) :
    rebuild F v s = (substitute f v, s) := by
  -- the relation says that a run does not leave `s`
  have h : Respects F fun a b => a = s → b = s :=
    ⟨fun _ ha => ha, fun h₁ h₂ ha => h₂ (h₁ ha), fun r a ha => by rw [ha, hF]⟩
  have hf : ∀ r a, (s = s → a = s) → ((F r a).2 = s → s = s) → (F r a).1 = f r := by
    intro r a ha _
    rw [ha rfl, hF]
  exact Prod.ext (rebuild_eq_substitute h hf v s id fun _ => rfl) (rebuild_state h v s rfl)

/-! ### What the resolver of a document does to its state -/

/-- What a run of the resolver may change: no reference stays open that was not, a target once
    remembered stays, and only references that lead somewhere are remembered. -/
structure Resolution.Grows (doc : Json) (s s' : Resolution) : Prop where
  active_eq : s'.active = s.active
  kept : ∀ r v, s.cache.lookup r = some v → s'.cache.lookup r = some v
  resolved : ∀ r v, s'.cache.lookup r = some v →
    s.cache.lookup r = some v ∨ ∃ target, targetOf doc r = .ok target

namespace Resolution.Grows

variable {doc : Json} {s s' s'' : Resolution}

theorem refl (s : Resolution) : Grows doc s s where
  active_eq := rfl
  kept _ _ h := h
  resolved _ _ h := .inl h

theorem trans (h : Grows doc s s') (h' : Grows doc s' s'') : Grows doc s s'' where
  active_eq := h'.active_eq.trans h.active_eq
  kept r v hv := h'.kept r v (h.kept r v hv)
  resolved r v hv := by
    rcases h'.resolved r v hv with hold | hok
    · exact h.resolved r v hold
    · exact .inr hok

/-- Working out a reference with it open, then remembering and closing it. -/
theorem remember {r : String} {target w : Json} (hmiss : s.cache.lookup r = none)
    (htarget : targetOf doc r = .ok target) (h : Grows doc ⟨s.cache, r :: s.active⟩ s') :
    Grows doc s ⟨(r, w) :: s'.cache, s'.active.erase r⟩ where
  active_eq := by rw [h.active_eq, List.erase_cons_head]
  kept q v hv := by
    -- the new entry hides no old one, since there was none
    have hq : q ≠ r := by
      rintro rfl
      rw [hmiss] at hv
      cases hv
    rw [List.lookup_cons, beq_false_of_ne hq]
    exact h.kept q v hv
  resolved q v hv := by
    by_cases hq : q = r
    · exact .inr ⟨target, hq ▸ htarget⟩
    · rw [List.lookup_cons, beq_false_of_ne hq] at hv
      exact h.resolved q v hv

end Resolution.Grows

/-- **Frame of the resolver.** Answering a reference leaves the open references as they were and
    only adds to what is remembered. -/
theorem follow_grows (doc : Json) (room : Nat) (r : String) (s : Resolution) :
    Resolution.Grows doc s (follow doc room r s).2 := by
  -- on the room: the target is rebuilt with one reference less
  induction room generalizing r s with
  | zero => exact .refl s
  | succ room ih =>
    rw [follow_succ]
    by_cases hopen : s.active.contains r = true
    · rw [if_pos hopen]
      exact .refl s
    · rw [if_neg hopen]
      cases hc : s.cache.lookup r with
      | some v => exact .refl s
      | none =>
        cases ht : targetOf doc r with
        | error _ => exact .refl s
        | ok target =>
          exact .remember hc ht (rebuild_state ⟨.refl, .trans, ih⟩ target _)

theorem follow_respects (doc : Json) (room : Nat) :
    Respects (follow doc room) (Resolution.Grows doc) where
  refl := .refl
  trans := .trans
  step := follow_grows doc room

/-! ### Outermost references -/

/-- The state of the resolver after it has gone through a document. -/
def finalState (doc : Json) : Resolution :=
  (rebuild (follow doc maxOpenReferences) doc ⟨[], []⟩).2

/-- What the resolver answers to a reference once it has gone through the document: for a reference
    that it met, the target as it was worked out the first time. -/
def replacement (doc : Json) (r : String) : Option Json :=
  (follow doc maxOpenReferences r (finalState doc)).1

theorem finalState_grows (doc : Json) : Resolution.Grows doc ⟨[], []⟩ (finalState doc) :=
  rebuild_state (follow_respects doc maxOpenReferences) doc _

variable {doc : Json} {s : Resolution}

/-- With no reference open, only a reference that leads nowhere stays. -/
theorem follow_eq_none_iff (hs : Resolution.Grows doc ⟨[], []⟩ s) (r : String) :
    (follow doc maxOpenReferences r s).1 = none ↔ ∀ target, targetOf doc r ≠ .ok target := by
  have hopen : ¬ s.active.contains r = true := by simp [hs.active_eq]
  rw [maxOpenReferences, follow_succ, if_neg hopen]
  cases hc : s.cache.lookup r with
  | some v =>
    -- what is remembered was worked out, so its reference leads somewhere
    rcases hs.resolved r v hc with hold | ⟨target, ht⟩
    · simp at hold
    · simp [ht]
  | none => cases ht : targetOf doc r <;> simp

/-- With no reference open, the answer is what is remembered afterwards. -/
theorem follow_eq_lookup (hs : Resolution.Grows doc ⟨[], []⟩ s) (r : String) :
    (follow doc maxOpenReferences r s).1 =
      (follow doc maxOpenReferences r s).2.cache.lookup r := by
  have hopen : ¬ s.active.contains r = true := by simp [hs.active_eq]
  rw [maxOpenReferences, follow_succ, if_neg hopen]
  cases hc : s.cache.lookup r with
  | some v => exact hc.symm
  | none => cases ht : targetOf doc r <;> simp [hc]

theorem replacement_eq_none_iff (doc : Json) (r : String) :
    replacement doc r = none ↔ ∀ target, targetOf doc r ≠ .ok target :=
  follow_eq_none_iff (finalState_grows doc) r

/-- An answer given in the open stands until the end of the run. -/
theorem follow_eq_replacement {r : String} (hs : Resolution.Grows doc ⟨[], []⟩ s)
    (hend : Resolution.Grows doc (follow doc maxOpenReferences r s).2 (finalState doc)) :
    (follow doc maxOpenReferences r s).1 = replacement doc r := by
  cases ha : (follow doc maxOpenReferences r s).1 with
  | none => exact ((replacement_eq_none_iff doc r).mpr ((follow_eq_none_iff hs r).mp ha)).symm
  | some w =>
    -- the answer is remembered, and what is remembered stays
    have hkept : (finalState doc).cache.lookup r = some w :=
      hend.kept r w ((follow_eq_lookup hs r).symm.trans ha)
    have hopen : ¬ (finalState doc).active.contains r = true := by
      simp [(finalState_grows doc).active_eq]
    rw [replacement, maxOpenReferences, follow_succ, if_neg hopen, hkept]

/-- **Dereferencing is one substitution.** Every outermost reference is replaced by what the
    resolver holds for it in the end. -/
theorem dereference_eq_substitute (doc : Json) :
    dereference doc = substitute (replacement doc) doc :=
  rebuild_eq_substitute (follow_respects doc maxOpenReferences)
    (fun _ _ hs hend => follow_eq_replacement hs hend) doc _ (.refl _) (.refl _)

end SecurityScan.Specification
