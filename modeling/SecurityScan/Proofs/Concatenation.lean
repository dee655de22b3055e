import Mathlib.Data.List.Basic
import SecurityScan.Source.Report
import SecurityScan.Proofs.Matching

namespace SecurityScan.Source

/-!
# Texts put one after the other

A line feed between two texts hides nothing that shows in either of them, since no pattern can tell
a line feed at the edge of a word from the end of the text.

* `fits_append` — a pattern that fits goes on fitting when the text goes on, if it does not go on
  inside a word;
* `Probe.fires_join` — a probe that fires on one of the texts fires on both together;
* `Probe.firstLine_join` — the first line that passes is one of the first text, if there is one;
* `findings_eq_map` — the findings on a text are those of the probes that fire, in their order;
* `findings_joined` — so findings are kept, with the lines of the second text counted on.
-/

/-! ### Patterns in a text that goes on -/

theorem runThen_append {k : CharClass} {after : Option Char → List Char → Bool} {ys : List Char}
    (hafter : ∀ before xs, after before xs = true → after before (xs ++ ys) = true)
    {before : Option Char} {xs : List Char} (h : runThen k after before xs = true) :
    runThen k after before (xs ++ ys) = true := by
  induction xs generalizing before with
  | nil => exact runThen_of_after (hafter before [] h)
  | cons x xs ih =>
    rw [runThen_cons, Bool.or_eq_true, Bool.and_eq_true] at h
    rw [List.cons_append, runThen_cons, Bool.or_eq_true, Bool.and_eq_true]
    rcases h with hnow | ⟨hx, hlater⟩
    · exact .inl (hafter before (x :: xs) hnow)
    · exact .inr ⟨hx, ih hlater⟩

/-- **A text that goes on.** What fits a text fits it when something is appended that does not start
    inside a word. -/
theorem Pattern.fits_append {ys : List Char} (hseam : ys.head?.any isWordChar = false)
    {p : Pattern} {before : Option Char} {xs : List Char} (h : p.fits before xs = true) :
    p.fits before (xs ++ ys) = true := by
  induction p generalizing before xs with
  | nil => rfl
  | cons piece ps ih =>
    cases piece with
    | one k =>
      cases xs with
      | nil => cases h
      | cons x xs =>
        rw [fits_one_cons, Bool.and_eq_true] at h
        rw [List.cons_append, fits_one_cons, Bool.and_eq_true]
        exact ⟨h.1, ih h.2⟩
    | run k => exact runThen_append (fun _ _ => ih) h
    | word choices =>
      rw [fits_word, List.any_eq_true] at h ⊢
      obtain ⟨w, hw, hfits⟩ := h
      rw [Bool.and_eq_true, List.isPrefixOf_iff_prefix] at hfits
      obtain ⟨hstarts, hrest⟩ := hfits
      refine ⟨w, hw, ?_⟩
      rw [Bool.and_eq_true, List.isPrefixOf_iff_prefix,
        List.drop_append_of_le_length hstarts.length_le]
      exact ⟨hstarts.trans (List.prefix_append xs ys), ih hrest⟩
    | edge =>
      rw [fits_edge, Bool.and_eq_true] at h ⊢
      refine ⟨?_, ih h.2⟩
      cases xs with
      | nil =>
        -- where the text ended there is now a character that is no part of a word
        have hend : ([] ++ ys).head?.any isWordChar = ([] : List Char).head?.any isWordChar := hseam
        rw [isEdge, hend]
        exact h.1
      | cons x xs => exact h.1

/-- What occurs in one of two texts occurs in both together, with a line feed between. -/
theorem Pattern.occurs_join {p : Pattern} {a b : List Char}
    (h : p.occurs a = true ∨ p.occurs b = true) : p.occurs (a ++ '\n' :: b) = true := by
  unfold occurs at h ⊢
  simp only [occursFrom_iff] at h ⊢
  rcases h with ⟨front, back, rfl, hfits⟩ | ⟨front, back, rfl, hfits⟩
  · refine ⟨front, back ++ '\n' :: b, by rw [List.append_assoc], ?_⟩
    exact fits_append rfl hfits
  · refine ⟨a ++ '\n' :: front, back, by rw [List.append_assoc, List.cons_append], ?_⟩
    -- at its start the second text now has a line feed before it, which is no part of a word
    rw [← hfits]
    apply fits_congr_before
    rw [List.getLast?_append, List.getLast?_cons]
    cases front.getLast? <;> rfl

/-! ### Lines -/

namespace Probe

theorem fires_join {p : Probe} {a b : List Char} (h : p.fires a = true ∨ p.fires b = true) :
    p.fires (a ++ '\n' :: b) = true := Pattern.occurs_join h

/-- If a line of the first text passes, the first such line stays the first. -/
theorem firstLine_join_of_pos {p : Probe} {a : List Char} (h : 0 < p.firstLine a) (b : List Char) :
    p.firstLine (a ++ '\n' :: b) = p.firstLine a := by
  unfold firstLine at h ⊢
  rw [Text.lines_append, List.findIdx?_append]
  cases ha : (Text.lines a).findIdx? p.passes with
  | none =>
    rw [ha] at h
    exact absurd h (Nat.lt_irrefl 0)
  | some i => rfl

/-- If no line of the first text passes, its lines are counted before those of the second. -/
theorem firstLine_join {p : Probe} {a b : List Char}
    (ha : ∀ line ∈ Text.lines a, p.passes line = false) (hb : 0 < p.firstLine b) :
    p.firstLine (a ++ '\n' :: b) = (Text.lines a).length + p.firstLine b := by
  have hnone : (Text.lines a).findIdx? p.passes = none := List.findIdx?_eq_none_iff.mpr ha
  unfold firstLine at hb ⊢
  rw [Text.lines_append, List.findIdx?_append, hnone, Option.none_or]
  cases hsome : (Text.lines b).findIdx? p.passes with
  | none =>
    rw [hsome] at hb
    exact absurd hb (Nat.lt_irrefl 0)
  | some i =>
    show i + (Text.lines a).length + 1 = (Text.lines a).length + (i + 1)
    omega

theorem check?_eq_some_iff {p : Probe} {text : List Char} {f : Finding} :
    p.check? text = some f ↔ p.fires text = true ∧ p.finding text = f := by
  unfold check?
  cases p.fires text <;> simp

/-- The probes that fire on a text, in the order of the table. -/
def fired (text : List Char) : List Probe := all.filter fun p => p.fires text

/-- Where more probes fire, the others keep their order. -/
theorem fired_sublist {a b : List Char} (h : ∀ p : Probe, p.fires a = true → p.fires b = true) :
    (fired a).Sublist (fired b) :=
  List.monotone_filter_right all h

end Probe

/-- The findings on a text are those of the probes that fire, one of each. -/
theorem findings_eq_map (text : List Char) :
    findings text = (Probe.fired text).map fun p => p.finding text := by
  rw [← List.filterMap_eq_map, Probe.fired, List.filterMap_filter]
  rfl

/-! ### Findings on two texts together -/

/-- A text, a line feed and a text. -/
def joined (a b : String) : String := a ++ "\n" ++ b

theorem toList_joined (a b : String) : (joined a b).toList = a.toList ++ '\n' :: b.toList := by
  rw [joined, String.toList_append, String.toList_append, List.append_assoc]
  rfl

/-- **Two texts together.** Every probe that has a finding on one of two texts has one on both
    together.  A finding of the first text that names a line stays as it is.  A finding of the
    second text that names a line names it counted from the start of the first text, if no line of
    the first text passes the test.  The findings are those of the probes that fire, one of each in
    the order of the table, and those that fire on one of the texts are among them in that order. -/
theorem findings_joined (a b : String) :
    (∀ (p : Probe) (f : Finding),
      (p.check? a.toList = some f →
        ∃ g, p.check? (joined a b).toList = some g ∧ (0 < f.line → g = f)) ∧
      (p.check? b.toList = some f →
        ∃ g, p.check? (joined a b).toList = some g ∧
          ((∀ line ∈ Text.lines a.toList, p.passes line = false) → 0 < f.line →
            g = { f with line := (Text.lines a.toList).length + f.line }))) ∧
    findings (joined a b).toList =
      (Probe.fired (joined a b).toList).map (fun p => p.finding (joined a b).toList) ∧
    (Probe.fired (joined a b).toList).Sublist Probe.all ∧ (Probe.all.map (·.id)).Nodup ∧
    (Probe.fired a.toList).Sublist (Probe.fired (joined a b).toList) ∧
    (Probe.fired b.toList).Sublist (Probe.fired (joined a b).toList) := by
  rw [toList_joined]
  refine ⟨fun p f => ⟨fun ha => ?_, fun hb => ?_⟩, findings_eq_map _, List.filter_sublist,
    by decide, ?_, ?_⟩
  · obtain ⟨hfires, rfl⟩ := Probe.check?_eq_some_iff.mp ha
    refine ⟨_, Probe.check?_eq_some_iff.mpr ⟨Probe.fires_join (.inl hfires), rfl⟩, fun hpos => ?_⟩
    have hline := Probe.firstLine_join_of_pos hpos b.toList
    rw [Probe.finding, Probe.finding, hline]
  · obtain ⟨hfires, rfl⟩ := Probe.check?_eq_some_iff.mp hb
    refine ⟨_, Probe.check?_eq_some_iff.mpr ⟨Probe.fires_join (.inr hfires), rfl⟩,
      fun hnone hpos => ?_⟩
    have hline := Probe.firstLine_join hnone hpos
    rw [Probe.finding, Probe.finding, hline]
  · exact Probe.fired_sublist fun p hp => Probe.fires_join (.inl hp)
  · exact Probe.fired_sublist fun p hp => Probe.fires_join (.inr hp)

/-- A text that ends in the word of its finding, on the second line. -/
def stopText : String := "// stop\ndebugger"

/-- A text with a popup over two lines, which no line shows, before one on the third line. -/
def popupText : String := "alert\n(1);\nalert (2);"

theorem findings_joined_popup :
    (∃ f, Probe.debuggerStatement.check? stopText.toList = some f ∧ f.line = 2) ∧
    (∃ f, Probe.nativePopup.check? popupText.toList = some f ∧ 0 < f.line) ∧
    (∀ line ∈ Text.lines stopText.toList, Probe.nativePopup.passes line = false) ∧
    ∃ g g', Probe.debuggerStatement.check? (joined stopText popupText).toList = some g ∧
      g.line = 2 ∧ Probe.nativePopup.check? (joined stopText popupText).toList = some g' ∧
      g'.line = 5 := by
  have hstop : Probe.debuggerStatement.check? stopText.toList =
      some { Probe.debuggerStatement.finding [] with line := 2 } := by decide +kernel
  have hpopup : Probe.nativePopup.check? popupText.toList =
      some { Probe.nativePopup.finding [] with line := 3 } := by decide +kernel
  have hnone : ∀ line ∈ Text.lines stopText.toList, Probe.nativePopup.passes line = false := by
    decide +kernel
  have hjoined := (findings_joined stopText popupText).1
  obtain ⟨g, hg, hkept⟩ := (hjoined _ _).1 hstop
  obtain ⟨g', hg', hmoved⟩ := (hjoined _ _).2 hpopup
  refine ⟨⟨_, hstop, rfl⟩, ⟨_, hpopup, by decide⟩, hnone, g, g', hg, ?_, hg', ?_⟩
  · rw [hkept (by decide)]
  · rw [hmoved hnone (by decide)]
    decide +kernel

end SecurityScan.Source
