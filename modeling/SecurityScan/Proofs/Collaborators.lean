import Mathlib.Data.List.Forall2
import SecurityScan.Proofs.Selection

namespace SecurityScan

open Specification

/-!
# What a scan asks of its collaborators

A scan leaves two decisions to collaborators: a judge says whether a document is valid, and an
engine looks for findings.  Here nothing is known of either.  What they answer may depend on all
calls made before, those of earlier scans among them; no two calls have the same past, so they may
keep a state of their own, share it, or answer as they please.

* `scanWith` — a scan with collaborators that act in any monad; `Scanner.scanLogged_eq_scanWith` —
  the scanner of this library is an instance;
* `Call`, `Collaborators` and `Collaborators.scan` — a scan that keeps the calls and their answers;
* `Scanned` — the three ways in which a scan can go, with the calls that it makes;
* `Collaborators.scan_step` — a scan goes one of these ways, on the answers of the collaborators;
* `Scanner.scanLogged_of_scan` — the scanner of this library lists what its engine is called with;
* `scans_run` — so over any number of scans the engine sees the accepted documents, each once with
  its references replaced, and each report is what the engine found.
-/

variable {ε : Type}

/-! ### Scans with any collaborators -/

/-- The report on a text, with collaborators that act in a monad. -/
def scanWith {m : Type → Type} [Monad m] (validate : Json → m (Except ε Unit))
    (look : Json → m (List Finding)) (keep : List Finding → List Finding) (text : String) :
    m (Except (ScanError ε) Report) := do
  match load text with
  | .error e => return .error (.load e)
  | .ok doc =>
    match ← validate doc with
    | .error e => return .error (.invalid e)
    | .ok () => return .ok (reportOn (keep (← look (dereference doc))))

/-- The scanner of this library has collaborators without memory, and lists what is looked at. -/
theorem Scanner.scanLogged_eq_scanWith (s : Scanner ε) (text : String) :
    s.scanLogged text =
      scanWith (fun doc => pure (s.validate doc))
        (fun doc => do
          modify (· ++ [doc])
          return s.look doc)
        s.keep text := by
  unfold scanLogged scanWith
  cases load text with
  | error e => rfl
  | ok doc =>
    dsimp only
    rw [pure_bind]
    cases s.validate doc <;> rfl

/-- A call of a collaborator, with its answer. -/
inductive Call (ε : Type) where
  | judged (doc : Json) (verdict : Except ε Unit)
  | looked (doc : Json) (found : List Finding)

namespace Call

/-- The document that was judged. -/
def judged? : Call ε → Option Json
  | .judged doc _ => some doc
  | .looked _ _ => none

/-- The document that was judged, if it was accepted. -/
def accepted? : Call ε → Option Json
  | .judged doc (.ok ()) => some doc
  | _ => none

/-- The document that was looked at. -/
def looked? : Call ε → Option Json
  | .judged _ _ => none
  | .looked doc _ => some doc

end Call

/-- A judge of documents and an engine that looks for findings, which know the calls so far. -/
structure Collaborators (ε : Type) where
  judge : List (Call ε) → Json → Except ε Unit
  look : List (Call ε) → Json → List Finding

namespace Collaborators

variable (k : Collaborators ε)

/-- The judge is called. -/
def judgeLogged (doc : Json) : StateM (List (Call ε)) (Except ε Unit) := fun calls =>
  (k.judge calls doc, calls ++ [.judged doc (k.judge calls doc)])

/-- The engine is called. -/
def lookLogged (doc : Json) : StateM (List (Call ε)) (List Finding) := fun calls =>
  (k.look calls doc, calls ++ [.looked doc (k.look calls doc)])

/-- The report on a text; no place is excluded. -/
def scan (text : String) : StateM (List (Call ε)) (Except (ScanError ε) Report) :=
  scanWith k.judgeLogged k.lookLogged id text

/-- The call was answered as the collaborators answer it after the calls before it. -/
def Gives (before : List (Call ε)) : Call ε → Prop
  | .judged doc verdict => k.judge before doc = verdict
  | .looked doc found => k.look before doc = found

/-- All calls were answered by the collaborators, each after those before it. -/
def Answered (calls : List (Call ε)) : Prop :=
  ∀ before call after, calls = before ++ call :: after → k.Gives before call

theorem answered_nil : k.Answered [] := by
  intro before call after h
  simp at h

/-- One more call. -/
theorem Answered.snoc {k : Collaborators ε} {calls : List (Call ε)} (h : k.Answered calls)
    {call : Call ε} (hcall : k.Gives calls call) : k.Answered (calls ++ [call]) := by
  intro before call' after hsplit
  rcases List.eq_nil_or_concat after with rfl | ⟨rest, last, rfl⟩
  · obtain ⟨rfl, hlast⟩ := List.append_inj' hsplit rfl
    cases hlast
    exact hcall
  · have hsplit' : calls ++ [call] = (before ++ call' :: rest) ++ [last] := by simpa using hsplit
    obtain ⟨hinit, _⟩ := List.append_inj' hsplit' rfl
    exact h before call' rest hinit

end Collaborators

/-! ### One scan -/

/-- Actions on a state, one after the other. -/
theorem stateM_bind_apply {σ α β : Type} (x : StateM σ α) (f : α → StateM σ β) (s : σ) :
    (x >>= f) s = f (x s).1 (x s).2 := rfl

namespace Collaborators

variable (k : Collaborators ε) {text : String} {doc : Json} {calls : List (Call ε)}

theorem scan_of_not_loaded {e : LoadError} (hload : load text = .error e) :
    k.scan text calls = (.error (.load e), calls) := by
  rw [scan, scanWith, hload]
  rfl

theorem scan_of_refused {e : ε} (hload : load text = .ok doc)
    (hverdict : k.judge calls doc = .error e) :
    k.scan text calls = (.error (.invalid e), calls ++ [.judged doc (.error e)]) := by
  have hcall : k.judgeLogged doc calls = (.error e, calls ++ [.judged doc (.error e)]) := by
    rw [judgeLogged, hverdict]
  rw [scan, scanWith, hload]
  dsimp only
  rw [stateM_bind_apply, hcall]
  rfl

theorem scan_of_accepted (hload : load text = .ok doc) (hverdict : k.judge calls doc = .ok ()) :
    k.scan text calls =
      (.ok (reportOn (k.look (calls ++ [.judged doc (.ok ())]) (dereference doc))),
        calls ++ [.judged doc (.ok ())] ++ [.looked (dereference doc)
          (k.look (calls ++ [.judged doc (.ok ())]) (dereference doc))]) := by
  have hcall : k.judgeLogged doc calls = (.ok (), calls ++ [.judged doc (.ok ())]) := by
    rw [judgeLogged, hverdict]
  rw [scan, scanWith, hload]
  dsimp only
  rw [stateM_bind_apply, hcall]
  rfl

end Collaborators

/-- `Scanned text calls answer`: a scan of the text may make these calls and end with this answer.
    A text that does not load causes no call.  A document that is refused is not looked at.  An
    accepted document is looked at with its references replaced, and the report holds what was found
    as it was found. -/
inductive Scanned (text : String) : List (Call ε) → Except (ScanError ε) Report → Prop where
  | notLoaded {e : LoadError} : load text = .error e → Scanned text [] (.error (.load e))
  | refused {doc : Json} {e : ε} : load text = .ok doc →
      Scanned text [.judged doc (.error e)] (.error (.invalid e))
  | reported {doc : Json} {found : List Finding} {report : Report} : load text = .ok doc →
      report.valid = true → report.issues = found → IsWorst found report.overallRisk →
      Scanned text [.judged doc (.ok ()), .looked (dereference doc) found] (.ok report)

/-- **One scan.** After any calls, a scan goes one of the three ways, and the collaborators have
    answered the calls that it adds. -/
theorem Collaborators.scan_step (k : Collaborators ε) (text : String) {calls : List (Call ε)}
    (hcalls : k.Answered calls) :
    ∃ new answer, k.scan text calls = (answer, calls ++ new) ∧ Scanned text new answer ∧
      k.Answered (calls ++ new) := by
  cases hload : load text with
  | error e =>
    refine ⟨[], .error (.load e), ?_, .notLoaded hload, ?_⟩
    · rw [k.scan_of_not_loaded hload, List.append_nil]
    · rwa [List.append_nil]
  | ok doc =>
    cases hverdict : k.judge calls doc with
    | error e =>
      have hjudged : k.Answered (calls ++ [.judged doc (.error e)]) := hcalls.snoc hverdict
      exact ⟨_, _, k.scan_of_refused hload hverdict, .refused hload, hjudged⟩
    | ok _ =>
      have hjudged : k.Answered (calls ++ [.judged doc (.ok ())]) := hcalls.snoc hverdict
      have hlooked : k.Answered (calls ++ [.judged doc (.ok ())] ++ [.looked (dereference doc)
          (k.look (calls ++ [.judged doc (.ok ())]) (dereference doc))]) := hjudged.snoc rfl
      have hscan := k.scan_of_accepted hload hverdict
      rw [List.append_assoc] at hscan hlooked
      exact ⟨_, _, hscan, .reported hload rfl rfl (isWorst_overallRisk _), hlooked⟩

/-! ### Scan after scan -/

/-- The calls of one scan and its answer. -/
structure Run (ε : Type) where
  calls : List (Call ε)
  answer : Except (ScanError ε) Report

/-- The document of a text. -/
def loaded? (text : String) : Option Json := (load text).toOption

/-- **Scans after any calls.** -/
theorem Collaborators.scans_from (k : Collaborators ε) (texts : List String)
    {calls : List (Call ε)} (hcalls : k.Answered calls) :
    ∃ runs : List (Run ε),
      texts.mapM k.scan calls = (runs.map (·.answer), calls ++ runs.flatMap (·.calls)) ∧
      List.Forall₂ (fun text run => Scanned text run.calls run.answer) texts runs ∧
      k.Answered (calls ++ runs.flatMap (·.calls)) := by
  induction texts generalizing calls with
  | nil =>
    refine ⟨[], ?_, .nil, ?_⟩
    · rw [List.flatMap_nil, List.append_nil]
      rfl
    · rwa [List.flatMap_nil, List.append_nil]
  | cons text texts ih =>
    obtain ⟨new, answer, hscan, hscanned, hnew⟩ := k.scan_step text hcalls
    obtain ⟨runs, hrest, hforall, hall⟩ := ih hnew
    refine ⟨⟨new, answer⟩ :: runs, ?_, .cons hscanned hforall, ?_⟩
    · rw [List.mapM_cons, stateM_bind_apply, hscan, stateM_bind_apply, hrest, List.append_assoc]
      rfl
    · rwa [List.flatMap_cons, ← List.append_assoc]

section

variable {texts : List String} {runs : List (Run ε)}
  (h : List.Forall₂ (fun text run => Scanned text run.calls run.answer) texts runs)

include h

/-- The judge sees each document that loads, as it was loaded. -/
theorem filterMap_judged :
    (runs.flatMap (·.calls)).filterMap Call.judged? = texts.filterMap loaded? := by
  induction h with
  | nil => rfl
  | @cons text run texts runs hscanned _ ih =>
    obtain ⟨calls, answer⟩ := run
    have hrun : calls.filterMap Call.judged? = (loaded? text).toList := by
      unfold loaded?
      cases hscanned with
      | notLoaded hload => rw [hload]; rfl
      | refused hload => rw [hload]; rfl
      | reported hload => rw [hload]; rfl
    rw [List.flatMap_cons, List.filterMap_append, ih, hrun, List.filterMap_cons]
    cases loaded? text <;> rfl

/-- The engine sees each accepted document, with its references replaced. -/
theorem filterMap_looked :
    (runs.flatMap (·.calls)).filterMap Call.looked? =
      ((runs.flatMap (·.calls)).filterMap Call.accepted?).map dereference := by
  induction h with
  | nil => rfl
  | @cons text run texts runs hscanned _ ih =>
    obtain ⟨calls, answer⟩ := run
    have hrun : calls.filterMap Call.looked? =
        (calls.filterMap Call.accepted?).map dereference := by
      cases hscanned <;> rfl
    rw [List.flatMap_cons, List.filterMap_append, List.filterMap_append, List.map_append, ih, hrun]

end

/-- A judge without memory accepts the documents that it accepts whenever it sees them. -/
theorem Collaborators.Answered.filterMap_accepted {k : Collaborators ε} {calls : List (Call ε)}
    (h : k.Answered calls) {accepts : Json → Bool}
    (haccepts : ∀ past doc, (k.judge past doc).isOk = accepts doc) :
    calls.filterMap Call.accepted? = (calls.filterMap Call.judged?).filter accepts := by
  rw [List.filter_filterMap]
  refine List.filterMap_congr fun call hcall => ?_
  obtain ⟨past, rest, hsplit⟩ := List.append_of_mem hcall
  have hgives := h past call rest hsplit
  cases call with
  | looked doc found => rfl
  | judged doc verdict =>
    have hverdict : k.judge past doc = verdict := hgives
    have hok := haccepts past doc
    rw [hverdict] at hok
    cases verdict with
    | error e =>
      have hno : accepts doc = false := hok.symm
      rw [Call.judged?, Option.filter_some, hno]
      rfl
    | ok _ =>
      have hyes : accepts doc = true := hok.symm
      rw [Call.judged?, Option.filter_some, hyes]
      rfl

/-! ### The scanner of this library -/

namespace Scanner

/-- Collaborators without memory. -/
def collaborators (s : Scanner ε) : Collaborators ε where
  judge _ := s.validate
  look _ := s.look

/-- What is listed as looked at are the documents of the calls of the engine. -/
theorem scanLogged_of_scan {s : Scanner ε} (hs : s.excluded = []) (text : String)
    (calls : List (Call ε)) :
    s.scanLogged text (calls.filterMap Call.looked?) =
      ((s.collaborators.scan text calls).1,
        (s.collaborators.scan text calls).2.filterMap Call.looked?) := by
  rw [scanLogged_eq_scanWith, scanWith]
  cases hload : load text with
  | error e =>
    rw [s.collaborators.scan_of_not_loaded hload]
    rfl
  | ok doc =>
    dsimp only
    rw [pure_bind]
    cases hverdict : s.validate doc with
    | error e =>
      rw [s.collaborators.scan_of_refused hload hverdict, List.filterMap_append,
        List.filterMap_cons_none rfl, List.filterMap_nil, List.append_nil]
      rfl
    | ok _ =>
      have hkeep : s.keep (s.look (dereference doc)) = s.look (dereference doc) := by
        rw [keep, hs]
        exact List.filter_eq_self.mpr fun _ _ => rfl
      rw [s.collaborators.scan_of_accepted hload hverdict, List.filterMap_append,
        List.filterMap_append, List.filterMap_cons_none rfl, List.filterMap_nil, List.append_nil]
      show (Except.ok (reportOn (s.keep (s.look (dereference doc)))),
        calls.filterMap Call.looked? ++ [dereference doc]) = _
      rw [hkeep]
      rfl

/-- Scan after scan. -/
theorem scansLogged_of_scans {s : Scanner ε} (hs : s.excluded = []) (texts : List String)
    (calls : List (Call ε)) :
    texts.mapM s.scanLogged (calls.filterMap Call.looked?) =
      ((texts.mapM s.collaborators.scan calls).1,
        (texts.mapM s.collaborators.scan calls).2.filterMap Call.looked?) := by
  induction texts generalizing calls with
  | nil => rfl
  | cons text texts ih =>
    rw [List.mapM_cons, List.mapM_cons, stateM_bind_apply, stateM_bind_apply,
      scanLogged_of_scan hs, stateM_bind_apply, stateM_bind_apply, ih]
    rfl

end Scanner

/-- **Scan after scan.** Over any number of texts, scanned one after the other by one scanner with
    any collaborators: each scan makes the calls and has the answer of one of the three ways in
    which a scan can go, the collaborators have answered all calls, and there are no other calls.
    The judge sees the documents that load, as they were loaded; the engine sees those that were
    accepted, with their references replaced; both see each of them once and in order.  If the judge
    has no memory, the engine thus sees the documents that load and are acceptable.  A scanner that
    excludes no place gives the same answers as its collaborators, and lists what they look at. -/
theorem scans_run (k : Collaborators ε) (texts : List String) :
    ∃ runs : List (Run ε),
      (texts.mapM k.scan).run [] = (runs.map (·.answer), runs.flatMap (·.calls)) ∧
      List.Forall₂ (fun text run => Scanned text run.calls run.answer) texts runs ∧
      k.Answered (runs.flatMap (·.calls)) ∧
      (runs.flatMap (·.calls)).filterMap Call.judged? = texts.filterMap loaded? ∧
      (runs.flatMap (·.calls)).filterMap Call.looked? =
        ((runs.flatMap (·.calls)).filterMap Call.accepted?).map dereference ∧
      (∀ accepts : Json → Bool, (∀ past doc, (k.judge past doc).isOk = accepts doc) →
        (runs.flatMap (·.calls)).filterMap Call.looked? =
          ((texts.filterMap loaded?).filter accepts).map dereference) ∧
      ∀ s : Scanner ε, s.excluded = [] → s.collaborators = k →
        (texts.mapM s.scanLogged).run [] =
          (runs.map (·.answer), (runs.flatMap (·.calls)).filterMap Call.looked?) := by
  obtain ⟨runs, hrun, hscanned, hanswered⟩ := k.scans_from texts k.answered_nil
  rw [List.nil_append] at hrun hanswered
  refine ⟨runs, hrun, hscanned, hanswered, filterMap_judged hscanned, filterMap_looked hscanned,
    ?_, ?_⟩
  · intro accepts haccepts
    rw [filterMap_looked hscanned, hanswered.filterMap_accepted haccepts,
      filterMap_judged hscanned]
  · rintro s hs rfl
    have hlogged := Scanner.scansLogged_of_scans hs texts []
    rw [hrun] at hlogged
    exact hlogged

theorem scans_run_looseDocument :
    ((∀ past doc, ((scannerFor {}).collaborators.judge past doc).isOk = (validate doc).isOk) ∧
      (scannerFor {}).excluded = []) ∧
    ∃ runs : List (Run Violation), runs.length = 3 ∧
      (["", looseDocument.compact, "\x7b\x7d"].mapM (scannerFor {}).scanLogged).run [] =
        (runs.map (·.answer), [dereference looseDocument]) := by
  have hmemory : ∀ past doc,
      ((scannerFor {}).collaborators.judge past doc).isOk = (validate doc).isOk := fun _ _ => rfl
  obtain ⟨runs, _, hscanned, _, _, _, hlooked, hlogged⟩ :=
    scans_run (scannerFor {}).collaborators ["", looseDocument.compact, "\x7b\x7d"]
  refine ⟨⟨hmemory, rfl⟩, runs, hscanned.length_eq.symm, ?_⟩
  -- the first text does not load, and the third has none of what a document needs
  have hloaded : ["", looseDocument.compact, "\x7b\x7d"].filterMap loaded? =
      [looseDocument, .obj []] := by decide +kernel
  have haccepted : [looseDocument, .obj []].filter (fun doc => (validate doc).isOk) =
      [looseDocument] := by decide +kernel
  rw [hlogged _ rfl rfl, hlooked _ hmemory, hloaded, haccepted]
  rfl

end SecurityScan
