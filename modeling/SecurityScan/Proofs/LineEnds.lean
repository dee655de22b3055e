import Mathlib.Data.List.Forall2
import SecurityScan.Source.Report
import SecurityScan.Proofs.Matching

namespace SecurityScan.Source

/-!
# Line ends

A carriage return put in before a line feed, or at the end of the text, changes nothing in a report.
This rests on what the patterns of the probes are like, and is checked for each of them.

* `AddsReturns` — a text is another one with such carriage returns put in;
* `Pattern.startsVisibly` — a pattern can only match where a character stands that breaks no line;
* `Pattern.skipsReturns` — such characters are all that a pattern asks for, but for runs, which take
  a carriage return wherever they take a line feed, and which something visible follows;
* `Pattern.fits_of_addsReturns`, `Pattern.occurs_of_addsReturns` — such a pattern matches alike;
* `forall₂_lines` — the lines are the same but for carriage returns at their ends;
* `analyze_of_addsReturns`, `analyze_withReturns` — so the reports are the same.
-/

/-! ### Carriage returns put in -/

/-- The second text is the first with carriage returns put in before line feeds or at the end. -/
inductive AddsReturns : List Char → List Char → Prop where
  | nil : AddsReturns [] []
  | last : AddsReturns [] ['\r']
  | cons {xs ys : List Char} (c : Char) : AddsReturns xs ys → AddsReturns (c :: xs) (c :: ys)
  | feed {xs ys : List Char} : AddsReturns xs ys → AddsReturns ('\n' :: xs) ('\r' :: '\n' :: ys)

/-- A character that breaks a line or stands before a line break. -/
def isBreak (c : Char) : Bool := c == '\r' || c == '\n'

namespace AddsReturns

variable {xs ys : List Char}

/-- Whether a word goes on is the same in both texts. -/
theorem head?_isWordChar (h : AddsReturns xs ys) :
    ys.head?.any isWordChar = xs.head?.any isWordChar := by
  cases h with
  | nil => rfl
  | last => decide
  | cons c h => rfl
  | feed h =>
    show isWordChar '\r' = isWordChar '\n'
    decide

/-- A word without line breaks starts both texts or neither, and then leaves such texts. -/
theorem isPrefixOf (h : AddsReturns xs ys) {w : List Char} (hw : ∀ c ∈ w, isBreak c = false) :
    w.isPrefixOf ys = w.isPrefixOf xs ∧
      (w.isPrefixOf xs = true → AddsReturns (xs.drop w.length) (ys.drop w.length)) := by
  induction w generalizing xs ys with
  | nil => exact ⟨by simp, fun _ => h⟩
  | cons c w ih =>
    obtain ⟨hc, hw⟩ := List.forall_mem_cons.mp hw
    obtain ⟨hr, hn⟩ : (c == '\r') = false ∧ (c == '\n') = false := Bool.or_eq_false_iff.mp hc
    cases h with
    | nil => exact ⟨rfl, fun h => by cases h⟩
    | last => exact ⟨by rw [List.isPrefixOf_cons_cons, hr]; rfl, fun h => by cases h⟩
    | cons d h =>
      obtain ⟨heq, hdrop⟩ := ih h hw
      rw [List.isPrefixOf_cons_cons, List.isPrefixOf_cons_cons, heq]
      exact ⟨rfl, fun hstarts => hdrop (Bool.and_eq_true_iff.mp hstarts).2⟩
    | feed h =>
      rw [List.isPrefixOf_cons_cons, List.isPrefixOf_cons_cons, hr, hn]
      exact ⟨rfl, fun h => by cases h⟩

end AddsReturns

/-! ### Patterns that do not see them -/

namespace Pattern

/-- The pattern can only match where a character stands that breaks no line. -/
def startsVisibly : Pattern → Bool
  | .one k :: _ => !k.has '\r' && !k.has '\n'
  | .word choices :: _ => choices.all fun w => w.toList.head?.any fun c => !isBreak c
  | .edge :: ps => startsVisibly ps
  | .run _ :: _ => false
  | [] => false

/-- The pattern asks for characters that break no line.  Its runs take a carriage return wherever
    they take a line feed, and something visible follows each of them. -/
def skipsReturns : Pattern → Bool
  | .one k :: ps => !k.has '\r' && !k.has '\n' && skipsReturns ps
  | .run k :: ps => (!k.has '\n' || k.has '\r') && startsVisibly ps && skipsReturns ps
  | .word choices :: ps => (choices.all fun w => w.toList.all fun c => !isBreak c) && skipsReturns ps
  | .edge :: ps => skipsReturns ps
  | [] => true

/-- Such a pattern does not match at the end of a text or at a line break. -/
theorem fits_of_startsVisibly {p : Pattern} (hp : p.startsVisibly = true) {xs : List Char}
    (hxs : xs.head?.all isBreak = true) (before : Option Char) : p.fits before xs = false := by
  induction p with
  | nil => cases hp
  | cons piece ps ih =>
    cases piece with
    | one k =>
      rw [startsVisibly, Bool.and_eq_true, Bool.not_eq_true', Bool.not_eq_true'] at hp
      cases xs with
      | nil => rfl
      | cons x xs =>
        have hx : k.has x = false := by
          rcases Bool.or_eq_true_iff.mp hxs with h | h
          · rw [eq_of_beq h, hp.1]
          · rw [eq_of_beq h, hp.2]
        rw [fits_one_cons, hx, Bool.false_and]
    | run k => cases hp
    | word choices =>
      rw [startsVisibly, List.all_eq_true] at hp
      rw [fits_word, List.any_eq_false]
      intro w hw hfits
      obtain ⟨hstarts, _⟩ := Bool.and_eq_true_iff.mp hfits
      have hvisible := hp w hw
      -- the word and the text start with the same character
      obtain ⟨rest, hrest⟩ := List.isPrefixOf_iff_prefix.mp hstarts
      cases hword : w.toList with
      | nil =>
        rw [hword] at hvisible
        cases hvisible
      | cons c cs =>
        rw [← hrest, hword] at hxs
        rw [hword] at hvisible
        have hbreak : isBreak c = true := hxs
        have hnot : isBreak c = false := by simpa using hvisible
        rw [hbreak] at hnot
        cases hnot
    | edge => rw [fits_edge, ih hp, Bool.and_false]

theorem fits_nil_of_startsVisibly {p : Pattern} (hp : p.startsVisibly = true)
    (before : Option Char) : p.fits before [] = false :=
  fits_of_startsVisibly hp rfl before

theorem fits_break_of_startsVisibly {p : Pattern} (hp : p.startsVisibly = true) {c : Char}
    (hc : isBreak c = true) (before : Option Char) (cs : List Char) :
    p.fits before (c :: cs) = false :=
  fits_of_startsVisibly hp (by simpa using hc) before

/-- What follows a run, which is something visible, matches alike behind the run. -/
theorem runThen_of_addsReturns {k : CharClass} (hk : (!k.has '\n' || k.has '\r') = true)
    {p : Pattern} (hp : p.startsVisibly = true)
    (hfits : ∀ {before : Option Char} {xs ys : List Char}, AddsReturns xs ys →
      p.fits before ys = p.fits before xs)
    {before : Option Char} {xs ys : List Char} (h : AddsReturns xs ys) :
    runThen k p.fits before ys = runThen k p.fits before xs := by
  induction h generalizing before with
  | nil => rfl
  | last =>
    rw [runThen_cons, runThen_nil, runThen_nil, fits_break_of_startsVisibly hp rfl,
      fits_nil_of_startsVisibly hp, fits_nil_of_startsVisibly hp, Bool.and_false, Bool.or_false]
  | cons c h ih => rw [runThen_cons, runThen_cons, hfits (h.cons c), ih]
  | @feed xs ys h ih =>
    rw [runThen_cons, runThen_cons, runThen_cons, ih, fits_break_of_startsVisibly hp rfl,
      fits_break_of_startsVisibly hp rfl, fits_break_of_startsVisibly hp rfl, Bool.false_or,
      Bool.false_or]
    cases hn : k.has '\n' with
    | false => rw [Bool.false_and, Bool.and_false]
    | true =>
      rw [hn] at hk
      have hr : k.has '\r' = true := hk
      rw [hr, Bool.true_and]

/-- **Carriage returns are not seen.** A pattern that skips them fits a text with carriage returns
    put in exactly if it fits the text. -/
theorem fits_of_addsReturns {p : Pattern} (hp : p.skipsReturns = true) {before : Option Char}
    {xs ys : List Char} (h : AddsReturns xs ys) : p.fits before ys = p.fits before xs := by
  induction p generalizing before xs ys with
  | nil => rfl
  | cons piece ps ih =>
    cases piece with
    | one k =>
      rw [skipsReturns, Bool.and_eq_true, Bool.and_eq_true, Bool.not_eq_true',
        Bool.not_eq_true'] at hp
      obtain ⟨⟨hr, hn⟩, hps⟩ := hp
      cases h with
      | nil => rfl
      | last => rw [fits_one_cons, fits_one_nil, hr, Bool.false_and]
      | cons c h => rw [fits_one_cons, fits_one_cons, ih hps h]
      | feed h => rw [fits_one_cons, fits_one_cons, hr, hn, Bool.false_and, Bool.false_and]
    | run k =>
      rw [skipsReturns, Bool.and_eq_true, Bool.and_eq_true] at hp
      obtain ⟨⟨hk, hvisible⟩, hps⟩ := hp
      exact runThen_of_addsReturns hk hvisible (ih hps) h
    | word choices =>
      rw [skipsReturns, Bool.and_eq_true, List.all_eq_true] at hp
      obtain ⟨hwords, hps⟩ := hp
      rw [fits_word, fits_word, Bool.eq_iff_iff, List.any_eq_true, List.any_eq_true]
      refine exists_congr fun w => and_congr_right fun hw => ?_
      have hword : ∀ c ∈ w.toList, isBreak c = false := by
        simpa using hwords w hw
      obtain ⟨hsame, hdrop⟩ := h.isPrefixOf hword
      rw [hsame, Bool.and_eq_true, Bool.and_eq_true]
      exact and_congr_right fun hstarts => by rw [ih hps (hdrop hstarts)]
    | edge =>
      rw [fits_edge, fits_edge, isEdge, isEdge, h.head?_isWordChar, ih hp h]

/-- A pattern that skips carriage returns and starts with something visible matches alike. -/
theorem occursFrom_of_addsReturns {p : Pattern} (hp : p.skipsReturns = true)
    (hvisible : p.startsVisibly = true) {before : Option Char} {xs ys : List Char}
    (h : AddsReturns xs ys) : p.occursFrom before ys = p.occursFrom before xs := by
  induction h generalizing before with
  | nil => rfl
  | last =>
    rw [occursFrom, occursFrom, occursFrom, fits_break_of_startsVisibly hvisible rfl,
      fits_nil_of_startsVisibly hvisible, fits_nil_of_startsVisibly hvisible, Bool.or_false]
  | cons c h ih => rw [occursFrom, occursFrom, fits_of_addsReturns hp (h.cons c), ih]
  | feed h ih =>
    rw [occursFrom, occursFrom, occursFrom, fits_break_of_startsVisibly hvisible rfl,
      fits_break_of_startsVisibly hvisible rfl, fits_break_of_startsVisibly hvisible rfl,
      Bool.false_or, Bool.false_or, Bool.false_or, ih]

/-- A pattern that matches alike in a text and in the text with carriage returns put in. -/
def skipsReturnsAnywhere (p : Pattern) : Bool := p.skipsReturns && p.startsVisibly

theorem occurs_of_addsReturns {p : Pattern} (hp : p.skipsReturnsAnywhere = true)
    {xs ys : List Char} (h : AddsReturns xs ys) : p.occurs ys = p.occurs xs := by
  obtain ⟨hskips, hvisible⟩ := Bool.and_eq_true_iff.mp hp
  exact occursFrom_of_addsReturns hskips hvisible h

end Pattern

/-- So does a literal text that holds visible characters only. -/
theorem occurs_of_addsReturns {s : String} (hs : (literal s).skipsReturnsAnywhere = true)
    {xs ys : List Char} (h : AddsReturns xs ys) :
    Text.occurs s.toList ys = Text.occurs s.toList xs := by
  rw [← Pattern.occurs_literal, ← Pattern.occurs_literal, Pattern.occurs_of_addsReturns hs h]

/-! ### Lines -/

/-- The lines of the two texts are the same but for carriage returns at their ends. -/
theorem forall₂_lines {xs ys : List Char} (h : AddsReturns xs ys) :
    List.Forall₂ AddsReturns (Text.lines xs) (Text.lines ys) := by
  unfold Text.lines
  induction h with
  | nil => exact .cons .nil .nil
  | last => exact .cons .last .nil
  | @cons xs ys c h ih =>
    by_cases hc : c = '\n'
    · rw [hc, Text.splitAt_cons_self, Text.splitAt_cons_self]
      exact .cons .nil ih
    · obtain ⟨line, rest, heq, hcons⟩ := Text.splitAt_cons_of_ne hc xs
      obtain ⟨line', rest', heq', hcons'⟩ := Text.splitAt_cons_of_ne hc ys
      rw [heq, heq', List.forall₂_cons] at ih
      rw [hcons, hcons']
      exact .cons (.cons c ih.1) ih.2
  | @feed xs ys h ih =>
    -- the line that ends here is empty, or a carriage return alone
    have hline : Text.splitAt '\n' ('\r' :: '\n' :: ys) = ['\r'] :: Text.splitAt '\n' ys :=
      @Text.splitAt_append '\n' ['\r'] (by decide) ys
    rw [Text.splitAt_cons_self, hline]
    exact .cons .last ih

theorem findIdx?_eq_of_forall₂ {α β : Type} {R : α → β → Prop} {p : α → Bool} {q : β → Bool}
    (hpq : ∀ a b, R a b → q b = p a) {as : List α} {bs : List β} (h : List.Forall₂ R as bs) :
    bs.findIdx? q = as.findIdx? p := by
  induction h with
  | nil => rfl
  | cons hab h ih => rw [List.findIdx?_cons, List.findIdx?_cons, hpq _ _ hab, ih]

/-! ### Probes and reports -/

/-- What a line must match to pass the test of a probe. -/
def Probe.linePattern (p : Probe) : Pattern :=
  match p.lineTest with
  | .holds text => literal text
  | .matchesPattern => p.pattern

theorem Probe.passes_eq_occurs (p : Probe) (line : List Char) :
    p.passes line = p.linePattern.occurs line := by
  unfold passes linePattern
  cases p.lineTest with
  | holds text => exact (Pattern.occurs_literal text line).symm
  | matchesPattern => rfl

/-- Neither the patterns of the probes nor those of their lines see carriage returns. -/
theorem Probe.skipsReturns_of_mem_all : ∀ p ∈ Probe.all,
    p.pattern.skipsReturnsAnywhere = true ∧ p.linePattern.skipsReturnsAnywhere = true := by
  decide +kernel

/-- Nor do the texts that call for an example. -/
theorem SecureExample.skipsReturns_of_mem_all : ∀ e ∈ SecureExample.all, ∀ t ∈ e.triggers,
    (literal t).skipsReturnsAnywhere = true := by
  decide +kernel

section

variable {xs ys : List Char} (h : AddsReturns xs ys)

include h

theorem Probe.check?_of_addsReturns {p : Probe} (hp : p ∈ Probe.all) :
    p.check? ys = p.check? xs := by
  obtain ⟨hpattern, hline⟩ := Probe.skipsReturns_of_mem_all p hp
  have hfires : p.fires ys = p.fires xs := Pattern.occurs_of_addsReturns hpattern h
  have hpasses : ∀ line line', AddsReturns line line' → p.passes line' = p.passes line := by
    intro line line' hadds
    rw [passes_eq_occurs, passes_eq_occurs, Pattern.occurs_of_addsReturns hline hadds]
  have hfirst : p.firstLine ys = p.firstLine xs := by
    unfold firstLine
    rw [findIdx?_eq_of_forall₂ hpasses (forall₂_lines h)]
  rw [check?, check?, hfires, finding, finding, hfirst]

theorem findings_of_addsReturns : findings ys = findings xs :=
  List.filterMap_congr fun _ hp => Probe.check?_of_addsReturns h hp

theorem secureExample?_of_addsReturns : secureExample? ys = secureExample? xs := by
  have hfor : ∀ e ∈ SecureExample.all, e.isFor ys = e.isFor xs := by
    intro e he
    unfold SecureExample.isFor
    rw [Bool.eq_iff_iff, List.all_eq_true, List.all_eq_true]
    refine forall₂_congr fun t ht => ?_
    rw [occurs_of_addsReturns (SecureExample.skipsReturns_of_mem_all e he t ht) h]
  unfold secureExample?
  rw [← List.head?_filter, ← List.head?_filter, List.filter_congr hfor]

end

/-- **Carriage returns at line ends change no report.** -/
theorem analyze_of_addsReturns {a b : String} (h : AddsReturns a.toList b.toList) :
    analyze b = analyze a := by
  unfold analyze
  dsimp only
  rw [findings_of_addsReturns h, secureExample?_of_addsReturns h]

/-- A text with a carriage return put in before each line feed. -/
def withReturns (code : String) : String :=
  String.ofList (Text.replaceAll ['\n'] ['\r', '\n'] code.toList)

theorem addsReturns_replaceAll (cs : List Char) :
    AddsReturns cs (Text.replaceAll ['\n'] ['\r', '\n'] cs) := by
  induction cs with
  | nil =>
    rw [Text.replaceAll_nil]
    exact .nil
  | cons c cs ih =>
    by_cases hc : c = '\n'
    · rw [hc, ← List.singleton_append, Text.replaceAll_append (by decide)]
      exact .feed ih
    · rw [Text.replaceAll_cons_of_not (by simpa using Ne.symm hc)]
      exact .cons c ih

/-- **Reports do not depend on the line-end convention.** Putting a carriage return in before each
    line feed leaves the findings with their lines, the suggestions, the risk and the example as
    they are. -/
theorem analyze_withReturns (code : String) : analyze (withReturns code) = analyze code := by
  apply analyze_of_addsReturns
  rw [withReturns, String.toList_ofList]
  exact addsReturns_replaceAll code.toList

end SecurityScan.Source
