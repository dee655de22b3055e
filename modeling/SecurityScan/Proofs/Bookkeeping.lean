import SecurityScan.Proofs.Replacement
import Mathlib.Data.Finset.Card
import Mathlib.Logic.Relation

namespace SecurityScan.Specification.Resolver

/-!
# The bookkeeping of the resolver

Dereferencing as a machine that takes one step at a time and keeps a set of the references that are
being resolved, with a counter beside it.

* `Ledger`, `Machine` and `step` — what is known, a state of a run, and the next state;
* `step_cases` — what a step does: it leaves the ledger alone, opens a reference or closes one;
* `Balanced`, `step_balanced` and `run_balanced` — set and counter stand for the references that
  wait on the stack, after a step and after a run;
* `run_value` and `run_reference` — a call of the machine runs to the result of `rebuild` and to the
  answer of `follow`, whatever waits for it;
* `Returns` — a run comes back from a call;
* `dereference_balanced` — every run ends with the dereferenced document, set and counter agree all
  along, and every call leaves them as it found them.
-/

/-! ### The machine -/

/-- What the resolver knows. -/
structure Ledger where
  /-- What references were replaced by. -/
  cache : List (String × Json)
  /-- The references that are being resolved. -/
  resolving : Finset String
  /-- How many there are. -/
  depth : Nat

namespace Ledger

/-- A reference is about to be resolved. -/
def enter (known : Ledger) (r : String) : Ledger where
  cache := known.cache
  resolving := insert r known.resolving
  depth := known.depth + 1

/-- A reference has been resolved. -/
def leave (known : Ledger) (r : String) (w : Json) : Ledger where
  cache := (r, w) :: known.cache
  resolving := known.resolving.erase r
  depth := known.depth - 1

end Ledger

/-- What is to be done about a reference. -/
inductive Outlook where
  /-- It is answered at once: it stays, or it is replaced by what is remembered. -/
  | settled (answer : Option Json)
  /-- The place it leads to has to be resolved. -/
  | target (v : Json)

/-- What the ledger and the document say about a reference. -/
def lookUp (doc : Json) (known : Ledger) (r : String) : Outlook :=
  if maxOpenReferences ≤ known.depth then .settled none
  else if r ∈ known.resolving then .settled none
  else match known.cache.lookup r with
    | some w => .settled (some w)
    | none => match targetOf doc r with
      | .ok v => .target v
      | .error _ => .settled none

/-- What waits for the result of a call. -/
inductive Waiting where
  /-- An array, with the items done and those to come. -/
  | items (done rest : List Json)
  /-- An object, with the members done, the key at hand and the members to come. -/
  | members (done : Members) (key : String) (rest : List (String × Json))
  /-- A reference and the object it stands in. -/
  | target (reference : String) (holder : Members)

/-- What a run is about to do. -/
inductive Control where
  /-- A value is to be resolved. -/
  | value (v : Json)
  /-- A value has been resolved. -/
  | result (w : Json)
  /-- A reference of an object is to be resolved. -/
  | reference (r : String) (holder : Members)
  /-- A reference has been answered. -/
  | answer (a : Option Json) (holder : Members)
  /-- The items to come are to be resolved. -/
  | items (done rest : List Json)
  /-- The members to come are to be resolved. -/
  | members (done : Members) (rest : List (String × Json))

/-- A state of a run. -/
structure Machine where
  control : Control
  stack : List Waiting
  known : Ledger

/-- The next state; a run ends with a result that nothing waits for. -/
def step (doc : Json) : Machine → Option Machine
  | ⟨.value (.obj ms), stack, known⟩ => match refOf? ms with
    | some r => some ⟨.reference r ms, stack, known⟩
    | none => some ⟨.members [] ms, stack, known⟩
  | ⟨.value (.arr vs), stack, known⟩ => some ⟨.items [] vs, stack, known⟩
  | ⟨.value v, stack, known⟩ => some ⟨.result v, stack, known⟩
  | ⟨.items done [], stack, known⟩ => some ⟨.result (.arr done), stack, known⟩
  | ⟨.items done (v :: vs), stack, known⟩ => some ⟨.value v, .items done vs :: stack, known⟩
  | ⟨.members done [], stack, known⟩ => some ⟨.result (.obj done), stack, known⟩
  | ⟨.members done ((k, v) :: ms), stack, known⟩ =>
    some ⟨.value v, .members done k ms :: stack, known⟩
  | ⟨.reference r holder, stack, known⟩ => match lookUp doc known r with
    | .settled a => some ⟨.answer a holder, stack, known⟩
    | .target v => some ⟨.value v, .target r holder :: stack, known.enter r⟩
  | ⟨.answer (some w) _, stack, known⟩ => some ⟨.result w, stack, known⟩
  | ⟨.answer none holder, stack, known⟩ => some ⟨.members [] holder, stack, known⟩
  | ⟨.result w, .items done vs :: stack, known⟩ => some ⟨.items (done ++ [w]) vs, stack, known⟩
  | ⟨.result w, .members done k ms :: stack, known⟩ =>
    some ⟨.members (done ++ [(k, w)]) ms, stack, known⟩
  | ⟨.result w, .target r holder :: stack, known⟩ =>
    some ⟨.answer (some w) holder, stack, known.leave r w⟩
  | ⟨.result _, [], _⟩ => none

/-- A run goes from one state to another. -/
def Reaches (doc : Json) : Machine → Machine → Prop :=
  Relation.ReflTransGen fun m m' => step doc m = some m'

/-- A run begins with the document and knows nothing. -/
def start (doc : Json) : Machine := ⟨.value doc, [], ⟨[], ∅, 0⟩⟩

/-! ### Open references -/

/-- The references that wait for the place they lead to, the innermost first. -/
def opened : List Waiting → List String
  | [] => []
  | .target r _ :: stack => r :: opened stack
  | .items _ _ :: stack | .members _ _ _ :: stack => opened stack

/-- A place is looked into only if the reference is not open and there is room for it. -/
theorem lookUp_eq_target {doc v : Json} {known : Ledger} {r : String}
    (h : lookUp doc known r = .target v) :
    known.depth < maxOpenReferences ∧ r ∉ known.resolving ∧ known.cache.lookup r = none ∧
      targetOf doc r = .ok v := by
  unfold lookUp at h
  split at h
  · cases h
  · next hdepth =>
    split at h
    · cases h
    · next hopen =>
      split at h
      · cases h
      · next hmiss =>
        split at h
        · next htarget =>
          cases h
          exact ⟨Nat.lt_of_not_le hdepth, hopen, hmiss, htarget⟩
        · cases h

/-- **What a step does.** It leaves the ledger and the open references alone, or it opens a
    reference for which there is room, or it closes the innermost one. -/
theorem step_cases {doc : Json} {m m' : Machine} (h : step doc m = some m') :
    (m'.known = m.known ∧ opened m'.stack = opened m.stack) ∨
      (∃ r, m.known.depth < maxOpenReferences ∧ r ∉ m.known.resolving ∧
        m'.known = m.known.enter r ∧ opened m'.stack = r :: opened m.stack) ∨
      ∃ r w, m'.known = m.known.leave r w ∧ opened m.stack = r :: opened m'.stack := by
  obtain ⟨control, stack, known⟩ := m
  cases control with
  | value v =>
    cases v with
    | obj ms =>
      simp only [step] at h
      cases hr : refOf? ms <;> rw [hr] at h <;> cases h <;> exact .inl ⟨rfl, rfl⟩
    | null | bool | num | str | arr => cases h; exact .inl ⟨rfl, rfl⟩
  | items done rest => cases rest <;> cases h <;> exact .inl ⟨rfl, rfl⟩
  | members done rest => cases rest <;> cases h <;> exact .inl ⟨rfl, rfl⟩
  | answer a holder => cases a <;> cases h <;> exact .inl ⟨rfl, rfl⟩
  | reference r holder =>
    simp only [step] at h
    cases hl : lookUp doc known r with
    | settled a =>
      rw [hl] at h
      cases h
      exact .inl ⟨rfl, rfl⟩
    | target v =>
      rw [hl] at h
      cases h
      obtain ⟨hdepth, hopen, _⟩ := lookUp_eq_target hl
      exact .inr (.inl ⟨r, hdepth, hopen, rfl, rfl⟩)
  | result w =>
    cases stack with
    | nil => cases h
    | cons waiting stack =>
      cases waiting with
      | items done rest => cases h; exact .inl ⟨rfl, rfl⟩
      | members done key rest => cases h; exact .inl ⟨rfl, rfl⟩
      | target r holder => cases h; exact .inr (.inr ⟨r, w, rfl, rfl⟩)

/-! ### Balance -/

/-- The ledger of a state of the resolver: its open references as a set, and their number. -/
def ledgerOf (s : Resolution) : Ledger := ⟨s.cache, s.active.toFinset, s.active.length⟩

theorem enter_ledgerOf (s : Resolution) (r : String) :
    (ledgerOf s).enter r = ledgerOf ⟨s.cache, r :: s.active⟩ := by
  simp only [ledgerOf, Ledger.enter, List.toFinset_cons, List.length_cons]

/-- Closing the innermost reference, if it is not open elsewhere. -/
theorem leave_ledgerOf {s : Resolution} {r : String} {active : List String} (w : Json)
    (hs : s.active = r :: active) (hr : r ∉ active) :
    (ledgerOf s).leave r w = ledgerOf ⟨(r, w) :: s.cache, active⟩ := by
  have herase : s.active.toFinset.erase r = active.toFinset := by
    rw [hs, List.toFinset_cons, Finset.erase_insert (mt List.mem_toFinset.mp hr)]
  have hlength : s.active.length - 1 = active.length := by rw [hs, List.length_cons]; rfl
  rw [Ledger.leave, ledgerOf, ledgerOf, herase, hlength]

/-- Set and counter stand for the references that wait on the stack, each of them once and not too
    many. -/
structure Balanced (m : Machine) : Prop where
  known_eq : m.known = ledgerOf ⟨m.known.cache, opened m.stack⟩
  nodup : (opened m.stack).Nodup
  length_le : (opened m.stack).length ≤ maxOpenReferences

/-- **Step lemma.** -/
theorem step_balanced {doc : Json} {m m' : Machine} (h : step doc m = some m') (hm : Balanced m) :
    Balanced m' := by
  obtain ⟨heq, hnodup, hle⟩ := hm
  rcases step_cases h with ⟨hknown, hstack⟩ | ⟨r, hroom, hfresh, hknown, hstack⟩ |
    ⟨r, w, hknown, hstack⟩
  · exact ⟨by rw [hknown, hstack, ← heq], hstack ▸ hnodup, hstack ▸ hle⟩
  · rw [heq] at hroom hfresh
    refine ⟨?_, ?_, ?_⟩
    · rw [hknown, hstack, heq, enter_ledgerOf]
      rfl
    · rw [hstack]
      exact List.nodup_cons.mpr ⟨mt List.mem_toFinset.mpr hfresh, hnodup⟩
    · rw [hstack]
      exact hroom
  · -- the reference that is closed waits nowhere else
    rw [hstack] at hnodup hle
    obtain ⟨hfresh, hnodup⟩ := List.nodup_cons.mp hnodup
    refine ⟨?_, hnodup, (Nat.le_succ _).trans hle⟩
    rw [hknown, heq, leave_ledgerOf w hstack hfresh]
    rfl

/-- **Run lemma.** -/
theorem run_balanced {doc : Json} {m m' : Machine} (h : Reaches doc m m') (hm : Balanced m) :
    Balanced m' := by
  induction h with
  | refl => exact hm
  | tail _ hstep ih => exact step_balanced hstep ih

theorem start_balanced (doc : Json) : Balanced (start doc) :=
  ⟨rfl, List.nodup_nil, Nat.zero_le _⟩

namespace Balanced

variable {m m' : Machine}

/-- The counter counts the set. -/
theorem depth_eq_card (hm : Balanced m) : m.known.depth = m.known.resolving.card := by
  rw [hm.known_eq]
  exact (List.toFinset_card_of_nodup hm.nodup).symm

theorem depth_le (hm : Balanced m) : m.known.depth ≤ maxOpenReferences := by
  rw [hm.known_eq]
  exact hm.length_le

/-- The stack settles set and counter. -/
theorem eq_of_stack (hm : Balanced m) (hm' : Balanced m') (h : m'.stack = m.stack) :
    m'.known.depth = m.known.depth ∧ m'.known.resolving = m.known.resolving := by
  rw [hm.known_eq, hm'.known_eq, h]
  exact ⟨rfl, rfl⟩

end Balanced

/-! ### Runs and results -/

/-- No reference is open twice, and there is room for just `room` more. -/
structure Fits (room : Nat) (s : Resolution) : Prop where
  nodup : s.active.Nodup
  room_eq : room + s.active.length = maxOpenReferences

/-- A run leaves open what was open. -/
theorem active_rebuild (doc : Json) (room : Nat) (v : Json) (s : Resolution) :
    (rebuild (follow doc room) v s).2.active = s.active :=
  (rebuild_state (follow_respects doc room) v s).active_eq

theorem Fits.of_active_eq {room : Nat} {s s' : Resolution} (hs : Fits room s)
    (h : s'.active = s.active) : Fits room s' := by
  obtain ⟨hnodup, hroom⟩ := hs
  rw [← h] at hnodup hroom
  exact ⟨hnodup, hroom⟩

section

variable {doc : Json} {room : Nat} {s : Resolution} {r : String}

theorem lookUp_ledgerOf (doc : Json) (s : Resolution) (r : String) :
    lookUp doc (ledgerOf s) r =
      if maxOpenReferences ≤ s.active.length then .settled none
      else if s.active.contains r then .settled none
      else match s.cache.lookup r with
        | some w => .settled (some w)
        | none => match targetOf doc r with
          | .ok v => .target v
          | .error _ => .settled none := by
  simp only [lookUp, ledgerOf, List.mem_toFinset, List.contains_iff_mem]

theorem follow_of_settled (hs : Fits room s) {a : Option Json}
    (h : lookUp doc (ledgerOf s) r = .settled a) : follow doc room r s = (a, s) := by
  have hlength := hs.room_eq
  rw [lookUp_ledgerOf] at h
  cases room with
  | zero =>
    rw [if_pos (by omega)] at h
    cases h
    rfl
  | succ room =>
    rw [if_neg (by omega)] at h
    rw [follow_succ]
    by_cases hopen : s.active.contains r = true
    · rw [if_pos hopen] at h ⊢
      cases h
      rfl
    · rw [if_neg hopen] at h ⊢
      cases hc : s.cache.lookup r with
      | some w =>
        rw [hc] at h
        cases h
        rfl
      | none =>
        rw [hc] at h
        cases ht : targetOf doc r with
        | error e =>
          rw [ht] at h
          cases h
          rfl
        | ok v =>
          rw [ht] at h
          cases h

theorem follow_of_target (hs : Fits (room + 1) s) {v : Json}
    (h : lookUp doc (ledgerOf s) r = .target v) :
    Fits room ⟨s.cache, r :: s.active⟩ ∧
      follow doc (room + 1) r s =
        (some (rebuild (follow doc room) v ⟨s.cache, r :: s.active⟩).1,
          ⟨(r, (rebuild (follow doc room) v ⟨s.cache, r :: s.active⟩).1) ::
            (rebuild (follow doc room) v ⟨s.cache, r :: s.active⟩).2.cache, s.active⟩) := by
  obtain ⟨_, hopen, hmiss, htarget⟩ := lookUp_eq_target h
  have hfresh : r ∉ s.active := mt List.mem_toFinset.mpr hopen
  have hlength := hs.room_eq
  refine ⟨⟨List.nodup_cons.mpr ⟨hfresh, hs.nodup⟩, ?_⟩, ?_⟩
  · show room + (s.active.length + 1) = maxOpenReferences
    omega
  · have hmiss : s.cache.lookup r = none := hmiss
    rw [follow_succ, if_neg (mt List.contains_iff_mem.mp hfresh), hmiss, htarget]
    simp only [active_rebuild, List.erase_cons_head]

end

section

variable {doc : Json} {room : Nat}

/-- A reference that is called for is answered as `follow` does, whatever waits for the answer. -/
def Answers (doc : Json) (room : Nat) : Prop :=
  ∀ (r : String) (s : Resolution) (holder : Members) (stack : List Waiting), Fits room s →
    Reaches doc ⟨.reference r holder, stack, ledgerOf s⟩
      ⟨.answer (follow doc room r s).1 holder, stack, ledgerOf (follow doc room r s).2⟩

mutual

/-- **Values.** If references are answered, a value that is called for is resolved as `rebuild`
    does, whatever waits for the result. -/
theorem run_value (h : Answers doc room) :
    ∀ (v : Json) (s : Resolution) (stack : List Waiting), Fits room s →
      Reaches doc ⟨.value v, stack, ledgerOf s⟩
        ⟨.result (rebuild (follow doc room) v s).1, stack,
          ledgerOf (rebuild (follow doc room) v s).2⟩
  | .obj ms, s, stack, hs => by
    cases hr : refOf? ms with
    | none =>
      have hcall : step doc ⟨.value (.obj ms), stack, ledgerOf s⟩ =
          some ⟨.members [] ms, stack, ledgerOf s⟩ := by simp only [step, hr]
      rw [rebuild_obj_none _ hr]
      exact .head hcall (run_members h ms [] s stack hs)
    | some r =>
      have hcall : step doc ⟨.value (.obj ms), stack, ledgerOf s⟩ =
          some ⟨.reference r ms, stack, ledgerOf s⟩ := by simp only [step, hr]
      have hanswer : Reaches doc ⟨.value (.obj ms), stack, ledgerOf s⟩
          ⟨.answer (follow doc room r s).1 ms, stack, ledgerOf (follow doc room r s).2⟩ :=
        .head hcall (h r s ms stack hs)
      rw [rebuild_obj_some _ hr]
      cases ha : (follow doc room r s).1 with
      | some w =>
        rw [ha] at hanswer
        exact hanswer.tail rfl
      | none =>
        -- a reference that stays is followed by the members beside it
        rw [ha] at hanswer
        exact (hanswer.tail rfl).trans
          (run_members h ms [] _ stack (hs.of_active_eq (follow_grows doc room r s).active_eq))
  | .arr vs, s, stack, hs => .head rfl (run_items h vs [] s stack hs)
  | .null, _, _, _ | .bool _, _, _, _ | .num _, _, _, _ | .str _, _, _, _ => .single rfl

theorem run_items (h : Answers doc room) :
    ∀ (vs done : List Json) (s : Resolution) (stack : List Waiting), Fits room s →
      Reaches doc ⟨.items done vs, stack, ledgerOf s⟩
        ⟨.result (.arr (done ++ (rebuildItems (follow doc room) vs s).1)), stack,
          ledgerOf (rebuildItems (follow doc room) vs s).2⟩
  | [], done, s, stack, _ => by
    have hdone : done ++ (rebuildItems (follow doc room) [] s).1 = done := List.append_nil done
    rw [hdone]
    exact .single rfl
  | v :: vs, done, s, stack, hs => by
    have hmid : Fits room (rebuild (follow doc room) v s).2 :=
      hs.of_active_eq (active_rebuild doc room v s)
    have hitem := run_value h v s (.items done vs :: stack) hs
    have hrest := run_items h vs (done ++ [(rebuild (follow doc room) v s).1]) _ stack hmid
    rw [List.append_assoc] at hrest
    rw [rebuildItems_cons]
    exact .head rfl ((hitem.tail rfl).trans hrest)

theorem run_members (h : Answers doc room) :
    ∀ (ms done : List (String × Json)) (s : Resolution) (stack : List Waiting), Fits room s →
      Reaches doc ⟨.members done ms, stack, ledgerOf s⟩
        ⟨.result (.obj (done ++ (rebuildMembers (follow doc room) ms s).1)), stack,
          ledgerOf (rebuildMembers (follow doc room) ms s).2⟩
  | [], done, s, stack, _ => by
    have hdone : done ++ (rebuildMembers (follow doc room) [] s).1 = done := List.append_nil done
    rw [hdone]
    exact .single rfl
  | (k, v) :: ms, done, s, stack, hs => by
    have hmid : Fits room (rebuild (follow doc room) v s).2 :=
      hs.of_active_eq (active_rebuild doc room v s)
    have hmember := run_value h v s (.members done k ms :: stack) hs
    have hrest := run_members h ms (done ++ [(k, (rebuild (follow doc room) v s).1)]) _ stack hmid
    rw [List.append_assoc] at hrest
    rw [rebuildMembers_cons]
    exact .head rfl ((hmember.tail rfl).trans hrest)

end

/-- **References.** Every reference that is called for is answered as `follow` does. -/
theorem run_reference (doc : Json) (room : Nat) : Answers doc room := by
  -- on the room: the place that a reference leads to is resolved with one reference less
  induction room using Nat.strong_induction_on with
  | _ room ih =>
    intro r s holder stack hs
    cases hl : lookUp doc (ledgerOf s) r with
    | settled a =>
      rw [follow_of_settled hs hl]
      exact .single (by simp only [step, hl])
    | target v =>
      have hdepth : s.active.length < maxOpenReferences := (lookUp_eq_target hl).1
      have hlength := hs.room_eq
      obtain ⟨room, rfl⟩ : ∃ n, room = n + 1 := Nat.exists_eq_succ_of_ne_zero (by omega)
      obtain ⟨hfits, hfollow⟩ := follow_of_target hs hl
      have hcall : step doc ⟨.reference r holder, stack, ledgerOf s⟩ =
          some ⟨.value v, .target r holder :: stack, ledgerOf ⟨s.cache, r :: s.active⟩⟩ := by
        simp only [step, hl, enter_ledgerOf]
      have hrun := run_value (ih room (Nat.lt_succ_self room)) v ⟨s.cache, r :: s.active⟩
        (.target r holder :: stack) hfits
      -- the reference is still open after the run, and the step after it closes it
      rw [hfollow, ← leave_ledgerOf _ (active_rebuild ..) (List.nodup_cons.mp hfits.nodup).1]
      exact .head hcall (hrun.tail rfl)

end

/-! ### Calls and returns -/

/-- A value or a reference is to be resolved. -/
def Control.isCall : Control → Bool
  | .value _ | .reference _ _ => true
  | _ => false

/-- A call can come back with a control: a value with its result, a reference with its answer. -/
inductive Control.ComesBack : Control → Control → Prop where
  | value {v w : Json} : ComesBack (.value v) (.result w)
  | reference {r : String} {a : Option Json} {holder : Members} :
      ComesBack (.reference r holder) (.answer a holder)

/-- The state is back from a call: what waited for the call waits for it. -/
def IsBack (call m : Machine) : Prop := call.control.ComesBack m.control ∧ m.stack = call.stack

/-- A run is back from a call for the first time. -/
inductive Returns (doc : Json) (call : Machine) : Machine → Machine → Prop where
  | here {m : Machine} : IsBack call m → Returns doc call m m
  | step {m m' ret : Machine} : ¬ IsBack call m → step doc m = some m' →
      Returns doc call m' ret → Returns doc call m ret

theorem Returns.isBack {doc : Json} {call m ret : Machine} (h : Returns doc call m ret) :
    IsBack call ret := by
  induction h with
  | here hback => exact hback
  | step _ _ _ ih => exact ih

theorem Returns.reaches {doc : Json} {call m ret : Machine} (h : Returns doc call m ret) :
    Reaches doc m ret := by
  induction h with
  | here => exact .refl
  | step _ hstep _ ih => exact .head hstep ih

/-- A run that is back at some time is back for a first time. -/
theorem exists_returns {doc : Json} {call m ret : Machine} (h : Reaches doc m ret)
    (hback : IsBack call ret) : ∃ first, Returns doc call m first := by
  induction h using Relation.ReflTransGen.head_induction_on with
  | refl => exact ⟨ret, .here hback⟩
  | @head m m' hstep _ ih =>
    by_cases hm : IsBack call m
    · exact ⟨m, .here hm⟩
    · obtain ⟨first, hfirst⟩ := ih
      exact ⟨first, .step hm hstep hfirst⟩

/-- **Every call comes back.** -/
theorem Balanced.exists_isBack {m : Machine} (doc : Json) (hm : Balanced m)
    (hcall : m.control.isCall = true) : ∃ ret, Reaches doc m ret ∧ IsBack m ret := by
  -- there is as much room as the open references leave
  have hfits : Fits (maxOpenReferences - (opened m.stack).length)
      ⟨m.known.cache, opened m.stack⟩ :=
    ⟨hm.nodup, Nat.sub_add_cancel hm.length_le⟩
  have hknown := hm.known_eq
  obtain ⟨control, stack, known⟩ := m
  cases control with
  | value v =>
    have hrun := run_value (run_reference doc _) v _ stack hfits
    rw [← hknown] at hrun
    exact ⟨_, hrun, .value, rfl⟩
  | reference r holder =>
    have hrun := run_reference doc _ r _ holder stack hfits
    rw [← hknown] at hrun
    exact ⟨_, hrun, .reference, rfl⟩
  | result | answer | items | members => cases hcall

/-- A run to a state without a next one is the only run. -/
theorem acc_of_reaches {doc : Json} {m last : Machine} (h : Reaches doc m last)
    (hlast : step doc last = none) : Acc (fun m' m => step doc m = some m') m := by
  induction h using Relation.ReflTransGen.head_induction_on with
  | refl =>
    refine .intro _ fun m' h => ?_
    rw [hlast] at h
    cases h
  | head hstep _ ih =>
    refine .intro _ fun m' h => ?_
    rw [hstep] at h
    cases h
    exact ih

/-- **Dereferencing ends, and its bookkeeping is balanced.** No run goes on for ever, and the run on
    a document ends with the dereferenced document.  In every state that it goes through, the
    counter is the number of references that are being resolved and does not exceed the bound.
    Every call, for a value or for a reference, comes back, and it leaves set and counter as it
    found them. -/
theorem dereference_balanced (doc : Json) :
    (Acc (fun m' m => step doc m = some m') (start doc) ∧
        ∃ known, Reaches doc (start doc) ⟨.result (dereference doc), [], known⟩) ∧
      (∀ m, Reaches doc (start doc) m →
        m.known.depth = m.known.resolving.card ∧ m.known.depth ≤ maxOpenReferences) ∧
      ∀ m, Reaches doc (start doc) m → m.control.isCall = true →
        (∃ ret, Returns doc m m ret) ∧ ∀ ret, Returns doc m m ret →
          ret.known.depth = m.known.depth ∧ ret.known.resolving = m.known.resolving := by
  have hbalanced : ∀ m, Reaches doc (start doc) m → Balanced m := fun m hm =>
    run_balanced hm (start_balanced doc)
  have hend : Reaches doc (start doc) ⟨.result (dereference doc), [],
      ledgerOf (rebuild (follow doc maxOpenReferences) doc ⟨[], []⟩).2⟩ :=
    run_value (run_reference doc maxOpenReferences) doc ⟨[], []⟩ [] ⟨List.nodup_nil, rfl⟩
  refine ⟨⟨acc_of_reaches hend rfl, _, hend⟩, fun m hm => ?_, fun m hm hcall => ⟨?_, ?_⟩⟩
  · exact ⟨(hbalanced m hm).depth_eq_card, (hbalanced m hm).depth_le⟩
  · obtain ⟨ret, hret, hback⟩ := (hbalanced m hm).exists_isBack doc hcall
    exact exists_returns hret hback
  · -- what waits for the call settles set and counter, before the call and after it
    intro ret hreturns
    have hret : Balanced ret := hbalanced ret (hm.trans hreturns.reaches)
    exact (hbalanced m hm).eq_of_stack hret hreturns.isBack.2

end SecurityScan.Specification.Resolver
