import SecurityScan.Proofs.ReportedLine

namespace SecurityScan

/-!
# Words one after another in a line

Two probes look for words with anything of the line between them.  However many ways there are to
divide a line between the words and the gaps, a match says no more than that the words stand in the
line in their order.

* `Text.InOrder` — words stand in a text one after another;
* `Source.Pattern.gaps` and `Source.Pattern.spread` — the pattern of such words;
* `Source.Pattern.fits_gaps_iff` and `Source.Pattern.occurs_spread_iff` — in a line, the pattern
  matches exactly if the words stand there in order;
* `Source.Probe.fires_iff_exists_line` — a probe whose pattern crosses no line break fires exactly
  if some line shows the pattern;
* `Source.wildcards_report` — the probes for dynamic expressions and for `html` have a finding
  exactly if their words stand in order in some line, and name the first such line.
-/

/-- The words stand in the text one after another: each begins where the one before it has ended, or
    later. -/
def Text.InOrder : List String → List Char → Prop
  | [], _ => True
  | w :: ws, cs => ∃ front back, cs = front ++ w.toList ++ back ∧ InOrder ws back

namespace Source

namespace Pattern

/-! ### Patterns of words -/

/-- Words, each behind anything that the line goes on with. -/
def gaps (words : List String) : Pattern := words.flatMap fun w => Probe.anything :: literal w

/-- Words with anything of the line between them. -/
def spread : List String → Pattern
  | [] => []
  | w :: ws => literal w ++ gaps ws

theorem gaps_cons (w : String) (ws : List String) :
    gaps (w :: ws) = Probe.anything :: spread (w :: ws) := rfl

/-- Within a line, anything may stand before what a pattern fits. -/
theorem fits_anything_iff {p : Pattern} {before : Option Char} {line : List Char}
    (hline : '\n' ∉ line) :
    fits (Probe.anything :: p) before line = true ↔
      ∃ front back, line = front ++ back ∧ p.fits (front.getLast?.or before) back = true := by
  rw [Probe.anything, fits_run, runThen_iff]
  constructor
  · rintro ⟨front, back, hcut, _, h⟩
    exact ⟨front, back, hcut, h⟩
  · rintro ⟨front, back, rfl, h⟩
    refine ⟨front, back, rfl, fun x hx => ?_, h⟩
    have hne : x ≠ '\n' := fun e => hline (List.mem_append_left back (e ▸ hx))
    exact bne_iff_ne.mpr hne

/-- **Words behind gaps.** In a line, the pattern of words behind gaps fits exactly if the words
    stand there in order. -/
theorem fits_gaps_iff {words : List String} {before : Option Char} {line : List Char}
    (hline : '\n' ∉ line) :
    (gaps words).fits before line = true ↔ Text.InOrder words line := by
  induction words generalizing before line with
  | nil => exact iff_of_true rfl trivial
  | cons w ws ih =>
    rw [gaps_cons, fits_anything_iff hline, Text.InOrder]
    constructor
    · rintro ⟨front, rest, rfl, h⟩
      rw [spread, fits_literal_append, Bool.and_eq_true, List.isPrefixOf_iff_prefix] at h
      obtain ⟨⟨back, rfl⟩, h⟩ := h
      rw [List.drop_left] at h
      -- what follows the word is still within the line
      have hback : '\n' ∉ back := fun hmem => hline (by simp [hmem])
      exact ⟨front, back, (List.append_assoc _ _ _).symm, (ih hback).mp h⟩
    · rintro ⟨front, back, rfl, h⟩
      have hback : '\n' ∉ back := fun hmem => hline (by simp [hmem])
      refine ⟨front, w.toList ++ back, List.append_assoc _ _ _, ?_⟩
      rw [spread, fits_literal_append, Bool.and_eq_true, List.isPrefixOf_iff_prefix, List.drop_left]
      exact ⟨List.prefix_append _ _, (ih hback).mpr h⟩

/-- **Words with gaps between them.** In a line, their pattern matches somewhere exactly if the words
    stand there in order. -/
theorem occurs_spread_iff {words : List String} {line : List Char} (hline : '\n' ∉ line) :
    (spread words).occurs line = true ↔ Text.InOrder words line := by
  have hgaps : (gaps words).fits none line = true ↔ Text.InOrder words line := fits_gaps_iff hline
  rw [← hgaps, occurs, occursFrom_iff]
  cases words with
  | nil => exact iff_of_true ⟨[], line, rfl, rfl⟩ rfl
  | cons w ws =>
    -- what comes before the place of the match is one more gap
    rw [gaps_cons, fits_anything_iff hline]

end Pattern

namespace Probe

/-- A probe whose pattern crosses no line break fires exactly if some line shows the pattern. -/
theorem fires_iff_exists_line {p : Probe} {text : List Char} (htest : p.lineTest = .matchesPattern)
    (hp : p.pattern.staysInLine = true) :
    p.fires text = true ↔ ∃ line ∈ Text.lines text, p.Shows line := by
  simp only [shows_iff_occurs htest]
  rw [exists_line_occurs_iff, fires, Pattern.occurs_iff]
  constructor
  · rintro ⟨front, m, back, hm⟩
    exact ⟨front, m, back, hm, hm.takes.notMem_of_staysInLine hp⟩
  · rintro ⟨front, m, back, hm, _⟩
    exact ⟨front, m, back, hm⟩

theorem isSome_check? {p : Probe} {text : List Char} :
    (p.check? text).isSome = true ↔ p.fires text = true := by
  unfold check?
  cases p.fires text <;> simp

/-! ### The probes for words with gaps -/

/-- The probes that look for words with gaps between them, and the words. -/
def wildcards : List (Probe × List String) :=
  [(dynamicRegexp, ["new RegExp(", "+", ")"]), (jqueryHtml, ["$(", ").html("])]

theorem spread_of_mem_wildcards : ∀ q ∈ wildcards, q.1.pattern = Pattern.spread q.2 := by
  decide +kernel

theorem lineTest_of_mem_wildcards : ∀ q ∈ wildcards, q.1.lineTest = .matchesPattern := by decide

theorem staysInLine_of_mem_wildcards : ∀ q ∈ wildcards, q.1.pattern.staysInLine = true := by
  decide +kernel

/-- A line of a text shows such a probe exactly if the words stand there in order. -/
theorem shows_iff_inOrder {q : Probe × List String} (hq : q ∈ wildcards) {text line : List Char}
    (hline : line ∈ Text.lines text) : q.1.Shows line ↔ Text.InOrder q.2 line := by
  have hfeed : '\n' ∉ line := Text.notMem_of_mem_splitAt hline
  rw [shows_iff_occurs (lineTest_of_mem_wildcards q hq), spread_of_mem_wildcards q hq,
    Pattern.occurs_spread_iff hfeed]

end Probe

/-- **Wildcards in a line.** The probe for dynamic expressions has a finding exactly if some line of
    the text holds `new RegExp(`, behind it a plus sign and behind that a closing parenthesis, and
    the probe for `html` exactly if some line holds `$(` and behind it `).html(`.  The finding names
    the first such line. -/
theorem wildcards_report {q : Probe × List String} (hq : q ∈ Probe.wildcards) (text : String) :
    ((q.1.check? text.toList).isSome = true ↔
      ∃ line ∈ Text.lines text.toList, Text.InOrder q.2 line) ∧
    ∀ f, q.1.check? text.toList = some f →
      ∃ above line below, Text.lines text.toList = above ++ line :: below ∧
        f.line = above.length + 1 ∧ Text.InOrder q.2 line ∧
        ∀ earlier ∈ above, ¬ Text.InOrder q.2 earlier := by
  have hshows : ∀ line ∈ Text.lines text.toList, (q.1.Shows line ↔ Text.InOrder q.2 line) :=
    fun line hline => Probe.shows_iff_inOrder hq hline
  have hfires : q.1.fires text.toList = true ↔ ∃ line ∈ Text.lines text.toList, q.1.Shows line :=
    Probe.fires_iff_exists_line (Probe.lineTest_of_mem_wildcards q hq)
      (Probe.staysInLine_of_mem_wildcards q hq)
  refine ⟨?_, fun f hf => ?_⟩
  · rw [Probe.isSome_check?, hfires]
    exact exists_congr fun line => and_congr_right (hshows line)
  · obtain ⟨hfired, rfl⟩ := Probe.check?_eq_some_iff.mp hf
    obtain ⟨shown, hshown, hshow⟩ := hfires.mp hfired
    have hpos : 0 < q.1.firstLine text.toList :=
      Nat.pos_of_ne_zero fun hzero => Probe.firstLine_eq_zero_iff.mp hzero shown hshown hshow
    obtain ⟨above, line, below, hlines, hnamed, hline, hbefore⟩ :=
      Probe.exists_of_firstLine_pos hpos
    refine ⟨above, line, below, hlines, hnamed, (hshows line (by simp [hlines])).mp hline, ?_⟩
    intro earlier hearlier hwords
    exact hbefore earlier hearlier ((hshows earlier (by simp [hlines, hearlier])).mpr hwords)

/-- Words out of their order or over two lines, above a line with two openings. -/
def crowdedText : String :=
  "$(a) + new RegExp(b)\n.html(new RegExp(c\n+ d))\n$(new RegExp($(e+f)).html(g)"

theorem wildcards_report_crowdedText :
    (Probe.dynamicRegexp, ["new RegExp(", "+", ")"]) ∈ Probe.wildcards ∧
    (Probe.jqueryHtml, ["$(", ").html("]) ∈ Probe.wildcards ∧
    (∃ f, Probe.dynamicRegexp.check? crowdedText.toList = some f ∧ f.line = 4 ∧
      ∃ above line below, Text.lines crowdedText.toList = above ++ line :: below ∧
        f.line = above.length + 1 ∧ Text.InOrder ["new RegExp(", "+", ")"] line ∧
        ∀ earlier ∈ above, ¬ Text.InOrder ["new RegExp(", "+", ")"] earlier) ∧
    ∃ f, Probe.jqueryHtml.check? crowdedText.toList = some f ∧ f.line = 4 ∧
      ∃ line ∈ Text.lines crowdedText.toList, Text.InOrder ["$(", ").html("] line := by
  have hregexp : (Probe.dynamicRegexp, ["new RegExp(", "+", ")"]) ∈ Probe.wildcards := by
    simp [Probe.wildcards]
  have hjquery : (Probe.jqueryHtml, ["$(", ").html("]) ∈ Probe.wildcards := by
    simp [Probe.wildcards]
  have hfirst : Probe.dynamicRegexp.check? crowdedText.toList =
      some { Probe.dynamicRegexp.finding [] with line := 4 } := by decide +kernel
  have hsecond : Probe.jqueryHtml.check? crowdedText.toList =
      some { Probe.jqueryHtml.finding [] with line := 4 } := by decide +kernel
  exact ⟨hregexp, hjquery, ⟨_, hfirst, rfl, (wildcards_report hregexp crowdedText).2 _ hfirst⟩,
    _, hsecond, rfl, (wildcards_report hjquery crowdedText).1.mp (hsecond ▸ rfl)⟩

end Source

end SecurityScan
