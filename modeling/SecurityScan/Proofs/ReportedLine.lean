import SecurityScan.Proofs.Concatenation
import SecurityScan.Proofs.MatchedText

namespace SecurityScan.Source

/-!
# The line that a finding names

A probe fires on a match anywhere in the text but names a line that passes a test of its own, so a
finding may name no line.

* `Probe.Shows` — what the line test of a probe asks of a line;
* `Probe.firstLine_eq_zero_iff` and `Probe.exists_of_firstLine_pos` — a finding names the first line
  that shows it, and no line exactly if none does;
* `Probe.showsInLine` — a check on the syntax of a probe: whatever it matches shows in some line;
* `Probe.firstLine_eq_zero_iff_crossing` — a probe that looks for its pattern in the lines names
  none exactly if all its matches cross line breaks;
* `reported_line` — so it is known of every probe when its findings name no line.
-/

namespace Probe

variable {p : Probe} {text : List Char}

/-! ### The first line -/

/-- The line shows what the probe looks for in a line: the given text, or a match of its pattern. -/
def Shows (p : Probe) (line : List Char) : Prop :=
  match p.lineTest with
  | .holds text => text.toList <:+: line
  | .matchesPattern => ∃ front m back, p.pattern.IsMatch line front m back

theorem passes_iff {line : List Char} : p.passes line = true ↔ p.Shows line := by
  unfold passes Shows
  cases p.lineTest with
  | holds text => exact SecurityScan.occurs_iff text.toList line
  | matchesPattern => exact Pattern.occurs_iff

/-- Where the probe looks for its pattern in the lines, a line shows that or nothing. -/
theorem shows_iff_occurs (hp : p.lineTest = .matchesPattern) {line : List Char} :
    p.Shows line ↔ p.pattern.occurs line = true := by
  rw [Pattern.occurs_iff, Shows, hp]

theorem passes_eq_false_iff {line : List Char} : p.passes line = false ↔ ¬ p.Shows line := by
  rw [← passes_iff, Bool.not_eq_true]

/-- No line is named exactly if none shows the finding. -/
theorem firstLine_eq_zero_iff :
    p.firstLine text = 0 ↔ ∀ line ∈ Text.lines text, ¬ p.Shows line := by
  simp only [← passes_eq_false_iff]
  rw [← List.findIdx?_eq_none_iff, firstLine]
  cases (Text.lines text).findIdx? p.passes <;> simp

/-- The line that is named shows the finding, and no line before it does. -/
theorem exists_of_firstLine_pos (h : 0 < p.firstLine text) :
    ∃ above line below, Text.lines text = above ++ line :: below ∧
      p.firstLine text = above.length + 1 ∧ p.Shows line ∧ ∀ earlier ∈ above, ¬ p.Shows earlier := by
  unfold firstLine at h ⊢
  cases hfirst : (Text.lines text).findIdx? p.passes with
  | none =>
    rw [hfirst] at h
    exact absurd h (Nat.lt_irrefl 0)
  | some i =>
    obtain ⟨hi, hpasses, hbefore⟩ := List.findIdx?_eq_some_iff_getElem.mp hfirst
    refine ⟨(Text.lines text).take i, (Text.lines text)[i], (Text.lines text).drop (i + 1),
      ?_, ?_, passes_iff.mp hpasses, ?_⟩
    · rw [← List.drop_eq_getElem_cons, List.take_append_drop]
    · rw [List.length_take_of_le (Nat.le_of_lt hi)]
    · intro earlier hearlier
      obtain ⟨j, hj, rfl⟩ := List.mem_take_iff_getElem.mp hearlier
      have hji : j < i := Nat.lt_of_lt_of_le hj (Nat.min_le_left _ _)
      exact passes_eq_false_iff.mp (by simpa using hbefore j hji)

theorem firstLine_le_length : p.firstLine text ≤ (Text.lines text).length := by
  rcases Nat.eq_zero_or_pos (p.firstLine text) with hzero | hpos
  · omega
  · obtain ⟨above, line, below, hlines, hline, _⟩ := exists_of_firstLine_pos hpos
    rw [hlines, hline, List.length_append, List.length_cons]
    omega

/-! ### Findings without a line -/

/-- Whatever the probe matches shows in some line: the text that its line test asks for stands at
    the start of every match, or no match crosses a line break. -/
def showsInLine (p : Probe) : Bool :=
  match p.lineTest with
  | .holds text => Text.occurs text.toList p.pattern.lead && !p.pattern.lead.contains '\n'
  | .matchesPattern => p.pattern.staysInLine

/-- Such a probe always names a line. -/
theorem firstLine_ne_zero (hp : p.showsInLine = true) (h : p.fires text = true) :
    p.firstLine text ≠ 0 := by
  rw [Ne, firstLine_eq_zero_iff]
  intro hnone
  obtain ⟨front, m, back, hm⟩ := Pattern.occurs_iff.mp h
  unfold showsInLine at hp
  unfold Shows at hnone
  cases htest : p.lineTest with
  | holds needle =>
    simp only [htest, Bool.and_eq_true, Bool.not_eq_true', List.contains_eq_mem,
      decide_eq_false_iff_not] at hp hnone
    obtain ⟨hneedle, hlead⟩ := hp
    obtain ⟨rest, hrest⟩ := hm.takes.lead_prefix
    -- the start of the match lies in one line, and the text lies in that start
    obtain ⟨l, r, hline, _⟩ := exists_line_of_notMem hlead front (rest ++ back)
    have htext : text = front ++ p.pattern.lead ++ (rest ++ back) := by
      rw [hm.cut, ← hrest]
      simp
    rw [← htext] at hline
    refine hnone _ hline ?_
    rw [SecurityScan.occurs_iff] at hneedle
    exact hneedle.trans (List.infix_append l p.pattern.lead r)
  | matchesPattern =>
    simp only [htest] at hp hnone
    have hinside : '\n' ∉ m := hm.takes.notMem_of_staysInLine hp
    obtain ⟨line, hline, hoccurs⟩ := exists_line_occurs_iff.mpr ⟨front, m, back, hm, hinside⟩
    exact hnone line hline (Pattern.occurs_iff.mp hoccurs)

/-- A probe that looks for its pattern in the lines names none exactly if every match crosses a line
    break. -/
theorem firstLine_eq_zero_iff_crossing (hp : p.lineTest = .matchesPattern) :
    p.firstLine text = 0 ↔ ∀ front m back, p.pattern.IsMatch text front m back → '\n' ∈ m := by
  rw [firstLine_eq_zero_iff]
  constructor
  · intro hnone front m back hm
    by_contra hinside
    obtain ⟨line, hline, hoccurs⟩ := exists_line_occurs_iff.mpr ⟨front, m, back, hm, hinside⟩
    exact hnone line hline ((shows_iff_occurs hp).mpr hoccurs)
  · intro hcross line hline hshown
    obtain ⟨front, m, back, hm, hinside⟩ :=
      exists_line_occurs_iff.mp ⟨line, hline, (shows_iff_occurs hp).mp hshown⟩
    exact hinside (hcross front m back hm)

/-- The probes that always name a line. -/
def certain : List Probe :=
  [eval, innerHtml, documentWrite, debuggerStatement, dynamicRegexp, jqueryHtml]

/-- The probes whose matches may cross a line break and then show in no line. -/
def crossing : List Probe := [stringTimer, nativePopup, consoleOutput]

theorem showsInLine_of_mem_certain : ∀ p ∈ certain, p.showsInLine = true := by decide +kernel

theorem lineTest_of_mem_crossing : ∀ p ∈ crossing, p.lineTest = .matchesPattern := by decide

end Probe

/-- **The reported line.** A probe that fires has a match in the text, and its finding names a line
    of the text or none.  The line named shows what the probe looks for in a line and no line before
    it does; if none is named, no line does.  The probes for `eval`, `innerHTML`, `document.write`,
    `debugger`, dynamic expressions and `html` always name a line.  Those for timers, popups and the
    console name none exactly if every match in the text crosses a line break. -/
theorem reported_line {p : Probe} {text : String} {f : Finding}
    (h : p.check? text.toList = some f) :
    (∃ front m back, p.pattern.IsMatch text.toList front m back) ∧
      f.line ≤ (Text.lines text.toList).length ∧
      (0 < f.line → ∃ above line below, Text.lines text.toList = above ++ line :: below ∧
        f.line = above.length + 1 ∧ p.Shows line ∧ ∀ earlier ∈ above, ¬ p.Shows earlier) ∧
      (f.line = 0 → ∀ line ∈ Text.lines text.toList, ¬ p.Shows line) ∧
      (p ∈ Probe.certain → f.line ≠ 0) ∧
      (p ∈ Probe.crossing → (f.line = 0 ↔
        ∀ front m back, p.pattern.IsMatch text.toList front m back → '\n' ∈ m)) := by
  obtain ⟨hfires, rfl⟩ := Probe.check?_eq_some_iff.mp h
  refine ⟨Pattern.occurs_iff.mp hfires, Probe.firstLine_le_length,
    Probe.exists_of_firstLine_pos, Probe.firstLine_eq_zero_iff.mp, ?_, ?_⟩
  · intro hp
    exact Probe.firstLine_ne_zero (Probe.showsInLine_of_mem_certain p hp) hfires
  · intro hp
    exact Probe.firstLine_eq_zero_iff_crossing (Probe.lineTest_of_mem_crossing p hp)

/-- A timer over two lines, which no line shows, above a call that stands behind a mention of it. -/
def splitTimer : String := "setTimeout(\n  \"tick()\", 100);\n// evaluate\neval (x);"

theorem reported_line_splitTimer :
    (Probe.stringTimer ∈ Probe.crossing ∧ Probe.eval ∈ Probe.certain) ∧
    (∃ f, Probe.stringTimer.check? splitTimer.toList = some f ∧ f.line = 0 ∧
      ∀ front m back, Probe.stringTimer.pattern.IsMatch splitTimer.toList front m back →
        '\n' ∈ m) ∧
    ∃ f, Probe.eval.check? splitTimer.toList = some f ∧ f.line ≠ 0 ∧
      ∃ above line below, Text.lines splitTimer.toList = above ++ line :: below ∧
        f.line = above.length + 1 ∧ Probe.eval.Shows line := by
  have htimer : Probe.stringTimer.check? splitTimer.toList =
      some (Probe.stringTimer.finding splitTimer.toList) := by decide +kernel
  have heval : Probe.eval.check? splitTimer.toList =
      some (Probe.eval.finding splitTimer.toList) := by decide +kernel
  have hcrossing : Probe.stringTimer ∈ Probe.crossing := by simp [Probe.crossing]
  have hcertain : Probe.eval ∈ Probe.certain := by simp [Probe.certain]
  have hzero : (Probe.stringTimer.finding splitTimer.toList).line = 0 := by decide +kernel
  have hnamed := (reported_line heval).2.2.2.2.1 hcertain
  obtain ⟨above, line, below, hlines, hline, hshows, _⟩ :=
    (reported_line heval).2.2.1 (Nat.pos_of_ne_zero hnamed)
  exact ⟨⟨hcrossing, hcertain⟩,
    ⟨_, htimer, hzero, ((reported_line htimer).2.2.2.2.2 hcrossing).mp hzero⟩,
    _, heval, hnamed, above, line, below, hlines, hline, hshows⟩

end SecurityScan.Source
