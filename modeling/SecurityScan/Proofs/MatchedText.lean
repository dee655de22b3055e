import Mathlib.Data.List.Basic
import SecurityScan.Source.Probe
import SecurityScan.Proofs.Mention
import SecurityScan.Proofs.Matching

namespace SecurityScan.Source

/-!
# The text that a pattern takes

A match of a pattern is a stretch of the text, and of what lies around it only the two neighbouring
characters matter.

* `Pattern.Takes` — the texts that a pattern takes between two neighbours, piece by piece;
* `Pattern.fits_iff` — a pattern fits a text exactly if it takes a start of it;
* `Pattern.IsMatch` and `Pattern.occurs_iff` — a stretch of a text is a match, and a pattern occurs
  in a text exactly if there is one;
* `Pattern.Takes.congr` — of its neighbours, a match sees whether they are part of a word;
* `Pattern.lead` and `Pattern.staysInLine` — what every match starts with, and that no match crosses
  a line break, read off the pattern;
* `exists_line_occurs_iff` — some line shows a pattern exactly if some match stays inside a line.
-/

namespace Pattern

/-! ### What a pattern takes -/

/-- `Takes p before m after`: the pattern takes exactly the text `m`, which stands between the
    characters `before` and `after`, if there are any. -/
inductive Takes : Pattern → Option Char → List Char → Option Char → Prop where
  | nil {before after : Option Char} : Takes [] before [] after
  | one {k : CharClass} {ps : Pattern} {before after : Option Char} {x : Char} {m : List Char} :
      k.has x = true → Takes ps (some x) m after → Takes (.one k :: ps) before (x :: m) after
  | run {k : CharClass} {ps : Pattern} {before after : Option Char} {r m : List Char} :
      (∀ x ∈ r, k.has x = true) → Takes ps (r.getLast?.or before) m after →
        Takes (.run k :: ps) before (r ++ m) after
  | word {choices : List String} {ps : Pattern} {before after : Option Char} {w : String}
      {m : List Char} :
      w ∈ choices → Takes ps (w.toList.getLast?.or before) m after →
        Takes (.word choices :: ps) before (w.toList ++ m) after
  | edge {ps : Pattern} {before after : Option Char} {m : List Char} :
      isEdge before (m.head?.or after) = true → Takes ps before m after →
        Takes (.edge :: ps) before m after

/-- A run takes some characters of its kind and leaves the rest to what follows it. -/
theorem runThen_iff {k : CharClass} {after : Option Char → List Char → Bool}
    {before : Option Char} {xs : List Char} :
    runThen k after before xs = true ↔ ∃ r ys, xs = r ++ ys ∧ (∀ x ∈ r, k.has x = true) ∧
      after (r.getLast?.or before) ys = true := by
  induction xs generalizing before with
  | nil =>
    constructor
    · intro h
      exact ⟨[], [], rfl, by simp, h⟩
    · rintro ⟨r, ys, hcut, _, h⟩
      obtain ⟨rfl, rfl⟩ := List.append_eq_nil_iff.mp hcut.symm
      exact h
  | cons x xs ih =>
    rw [runThen_cons, Bool.or_eq_true, Bool.and_eq_true, ih]
    constructor
    · rintro (h | ⟨hx, r, ys, rfl, hr, h⟩)
      · exact ⟨[], x :: xs, rfl, by simp, h⟩
      · exact ⟨x :: r, ys, rfl, List.forall_mem_cons.mpr ⟨hx, hr⟩, by rwa [getLast?_cons_or]⟩
    · rintro ⟨r, ys, hcut, hr, h⟩
      cases r with
      | nil =>
        left
        rwa [hcut]
      | cons y r =>
        obtain ⟨rfl, rfl⟩ := List.cons.inj hcut
        obtain ⟨hy, hr⟩ := List.forall_mem_cons.mp hr
        right
        exact ⟨hy, r, ys, rfl, hr, by rwa [← getLast?_cons_or]⟩

/-- **What a pattern fits.** A pattern fits a text exactly if it takes a start of the text, with the
    rest behind it. -/
theorem fits_iff {p : Pattern} {before : Option Char} {xs : List Char} :
    p.fits before xs = true ↔ ∃ m back, xs = m ++ back ∧ p.Takes before m back.head? := by
  induction p generalizing before xs with
  | nil =>
    constructor
    · intro _
      exact ⟨[], xs, rfl, .nil⟩
    · intro _
      rfl
  | cons piece ps ih =>
    cases piece with
    | one k =>
      constructor
      · intro h
        cases xs with
        | nil => cases h
        | cons x xs =>
          rw [fits_one_cons, Bool.and_eq_true, ih] at h
          obtain ⟨hx, m, back, rfl, hm⟩ := h
          exact ⟨x :: m, back, rfl, .one hx hm⟩
      · rintro ⟨_, back, rfl, @⟨⟩ | ⟨hx, hm⟩⟩
        rw [List.cons_append, fits_one_cons, Bool.and_eq_true, ih]
        exact ⟨hx, _, back, rfl, hm⟩
    | run k =>
      rw [fits_run, runThen_iff]
      constructor
      · rintro ⟨r, ys, rfl, hr, h⟩
        obtain ⟨m, back, rfl, hm⟩ := ih.mp h
        exact ⟨r ++ m, back, by rw [List.append_assoc], .run hr hm⟩
      · rintro ⟨_, back, rfl, hm⟩
        cases hm with
        | @run _ _ _ _ r m hr hm =>
          exact ⟨r, m ++ back, by rw [List.append_assoc], hr, ih.mpr ⟨m, back, rfl, hm⟩⟩
    | word choices =>
      rw [fits_word, List.any_eq_true]
      constructor
      · rintro ⟨w, hw, h⟩
        rw [Bool.and_eq_true, List.isPrefixOf_iff_prefix, ih] at h
        obtain ⟨⟨rest, rfl⟩, m, back, hrest, hm⟩ := h
        rw [List.drop_left] at hrest
        exact ⟨w.toList ++ m, back, by rw [hrest, List.append_assoc], .word hw hm⟩
      · rintro ⟨_, back, rfl, hm⟩
        cases hm with
        | @word _ _ _ _ w m hw hm =>
          refine ⟨w, hw, ?_⟩
          rw [List.append_assoc, Bool.and_eq_true, List.isPrefixOf_iff_prefix, List.drop_left, ih]
          exact ⟨List.prefix_append _ _, m, back, rfl, hm⟩
    | edge =>
      rw [fits_edge, Bool.and_eq_true, ih]
      -- the edge lies between the character before the match and the first one of what is there
      have hhead : ∀ m back : List Char, (m ++ back).head? = m.head?.or back.head? := by
        intro m back
        exact List.head?_append
      constructor
      · rintro ⟨hedge, m, back, rfl, hm⟩
        rw [hhead] at hedge
        exact ⟨m, back, rfl, .edge hedge hm⟩
      · rintro ⟨m, back, rfl, hm⟩
        cases hm with
        | edge hedge hm =>
          rw [hhead]
          exact ⟨hedge, m, back, rfl, hm⟩

/-- The stretch `m` of a text, between `front` and `back`, is a match of the pattern. -/
structure IsMatch (p : Pattern) (text front m back : List Char) : Prop where
  cut : text = front ++ m ++ back
  takes : p.Takes front.getLast? m back.head?

/-- A pattern occurs in a text exactly if the text has a match. -/
theorem occurs_iff {p : Pattern} {text : List Char} :
    p.occurs text = true ↔ ∃ front m back, p.IsMatch text front m back := by
  unfold occurs
  rw [occursFrom_iff]
  constructor
  · rintro ⟨front, rest, rfl, h⟩
    rw [Option.or_none, fits_iff] at h
    obtain ⟨m, back, rfl, hm⟩ := h
    exact ⟨front, m, back, by rw [List.append_assoc], hm⟩
  · rintro ⟨front, m, back, rfl, hm⟩
    refine ⟨front, m ++ back, by rw [List.append_assoc], ?_⟩
    rw [Option.or_none, fits_iff]
    exact ⟨m, back, rfl, hm⟩

/-- **What a match sees of its neighbours.** Whether they are part of a word, and nothing else. -/
theorem Takes.congr {p : Pattern} {before before' after after' : Option Char} {m : List Char}
    (h : p.Takes before m after) (hbefore : before.any isWordChar = before'.any isWordChar)
    (hafter : after.any isWordChar = after'.any isWordChar) : p.Takes before' m after' := by
  -- behind a text, its last character is seen, if it has one
  have hbehind : ∀ {b b' : Option Char} (r : List Char), b.any isWordChar = b'.any isWordChar →
      (r.getLast?.or b).any isWordChar = (r.getLast?.or b').any isWordChar := by
    intro b b' r hb
    cases r.getLast? with
    | none => exact hb
    | some c => rfl
  induction h generalizing before' with
  | nil => exact .nil
  | one hx _ ih => exact .one hx (ih rfl hafter)
  | run hr _ ih => exact .run hr (ih (hbehind _ hbefore) hafter)
  | word hw _ ih => exact .word hw (ih (hbehind _ hbefore) hafter)
  | @edge _ _ after m hedge _ ih =>
    refine .edge ?_ (ih hbefore hafter)
    have hfirst : (m.head?.or after').any isWordChar = (m.head?.or after).any isWordChar := by
      cases m.head? with
      | none => exact hafter.symm
      | some c => rfl
    rw [isEdge, ← hbefore, hfirst]
    exact hedge

/-! ### What the syntax of a pattern says about its matches -/

/-- The characters that every match starts with. -/
def lead : Pattern → List Char
  | .one (.exactly c) :: ps => c :: lead ps
  | .edge :: ps => lead ps
  | _ => []

theorem Takes.lead_prefix {p : Pattern} {before after : Option Char} {m : List Char}
    (h : p.Takes before m after) : p.lead <+: m := by
  induction h with
  | nil => exact List.nil_prefix
  | @one k ps before after x m hx _ ih =>
    cases k with
    | exactly c =>
      have hxc : x = c := eq_of_beq hx
      rw [lead, hxc]
      exact List.cons_prefix_cons.mpr ⟨rfl, ih⟩
    | among | blank | inLine => exact List.nil_prefix
  | run | word => exact List.nil_prefix
  | edge _ _ ih => exact ih

/-- No piece of the pattern takes a line feed. -/
def staysInLine : Pattern → Bool
  | .one k :: ps => !k.has '\n' && staysInLine ps
  | .run k :: ps => !k.has '\n' && staysInLine ps
  | .word choices :: ps => (choices.all fun w => !w.toList.contains '\n') && staysInLine ps
  | .edge :: ps => staysInLine ps
  | [] => true

theorem Takes.notMem_of_staysInLine {p : Pattern} {before after : Option Char} {m : List Char}
    (h : p.Takes before m after) (hp : p.staysInLine = true) : '\n' ∉ m := by
  induction h with
  | nil => exact List.not_mem_nil
  | @one k ps before after x m hx _ ih =>
    rw [staysInLine, Bool.and_eq_true, Bool.not_eq_true'] at hp
    refine List.not_mem_cons_of_ne_of_not_mem ?_ (ih hp.2)
    rintro rfl
    rw [hp.1] at hx
    cases hx
  | @run k ps before after r m hr _ ih =>
    rw [staysInLine, Bool.and_eq_true, Bool.not_eq_true'] at hp
    intro hmem
    rcases List.mem_append.mp hmem with hmem | hmem
    · rw [hr _ hmem] at hp
      cases hp.1
    · exact ih hp.2 hmem
  | @word choices ps before after w m hw _ ih =>
    rw [staysInLine, Bool.and_eq_true, List.all_eq_true] at hp
    intro hmem
    rcases List.mem_append.mp hmem with hmem | hmem
    · have hword := hp.1 w hw
      simp [hmem] at hword
    · exact ih hp.2 hmem
  | edge _ _ ih => exact ih hp

end Pattern

/-! ### Matches and lines -/

/-- What stands next to a line: a line feed, or nothing. -/
def isLineEdge (c : Option Char) : Bool := c.all (· == '\n')

/-- The edge of a line is no part of a word, so it ends a word as the end of the text does. -/
theorem any_or_of_isLineEdge {c : Option Char} (hc : isLineEdge c = true) (d : Option Char) :
    (d.or c).any isWordChar = d.any isWordChar := by
  cases d with
  | some d => rfl
  | none =>
    cases c with
    | none => rfl
    | some c =>
      have hfeed : c = '\n' := eq_of_beq hc
      rw [hfeed]
      show isWordChar '\n' = false
      decide

/-- A line stands in its text between two edges. -/
theorem exists_cut_of_mem_lines {text line : List Char} (h : line ∈ Text.lines text) :
    ∃ front back, text = front ++ line ++ back ∧ isLineEdge front.getLast? = true ∧
      isLineEdge back.head? = true := by
  obtain ⟨above, below, hpieces⟩ := List.append_of_mem h
  have htext : (Text.lines text).flatMap ('\n' :: ·) = '\n' :: text := Text.flatMap_splitAt '\n' text
  rw [hpieces, List.flatMap_append, List.flatMap_cons] at htext
  have hbelow : isLineEdge (below.flatMap ('\n' :: ·)).head? = true := by
    cases below <;> rfl
  cases above with
  | nil =>
    rw [List.flatMap_nil, List.nil_append, List.cons_append, List.cons.injEq] at htext
    exact ⟨[], _, htext.2.symm, rfl, hbelow⟩
  | cons first above =>
    rw [List.flatMap_cons, List.cons_append, List.cons_append, List.cons.injEq] at htext
    refine ⟨first ++ above.flatMap ('\n' :: ·) ++ ['\n'], _, ?_, by simp [isLineEdge], hbelow⟩
    rw [← htext.2]
    simp

/-- A text goes on to its first line feed or to its end. -/
theorem exists_cut_at_feed (cs : List Char) :
    ∃ r rest, cs = r ++ rest ∧ '\n' ∉ r ∧ (rest = [] ∨ ∃ below, rest = '\n' :: below) := by
  by_cases h : '\n' ∈ cs
  · obtain ⟨r, below, hcut, hr⟩ := List.eq_append_cons_of_mem h
    exact ⟨r, '\n' :: below, hcut, hr, .inr ⟨below, rfl⟩⟩
  · exact ⟨cs, [], by simp, h, .inl rfl⟩

/-- A stretch of a text without a line feed lies in one line, which reaches from edge to edge. -/
theorem exists_line_of_notMem {m : List Char} (hm : '\n' ∉ m) (front back : List Char) :
    ∃ l r, l ++ m ++ r ∈ Text.lines (front ++ m ++ back) ∧
      l.getLast?.any isWordChar = front.getLast?.any isWordChar ∧
      r.head?.any isWordChar = back.head?.any isWordChar := by
  obtain ⟨r, rest, rfl, hr, hrest⟩ := exists_cut_at_feed back
  -- the line starts behind the last line feed in front, which is the first one read backwards
  obtain ⟨l, above, hfront, hl, habove⟩ := exists_cut_at_feed front.reverse
  have hline : '\n' ∉ l.reverse ++ m ++ r := by simp [hl, hm, hr]
  have hends : l.reverse ++ m ++ r ∈ Text.lines (l.reverse ++ m ++ (r ++ rest)) := by
    rw [← List.append_assoc]
    rcases hrest with rfl | ⟨below, rfl⟩
    · rw [List.append_nil, Text.lines, Text.splitAt_of_notMem hline]
      exact List.mem_singleton_self _
    · rw [Text.lines, Text.splitAt_append hline]
      exact List.mem_cons_self
  have hrestEdge : isLineEdge rest.head? = true := by
    rcases hrest with rfl | ⟨below, rfl⟩ <;> rfl
  have haboveEdge : isLineEdge above.head? = true := by
    rcases habove with rfl | ⟨below, rfl⟩ <;> rfl
  refine ⟨l.reverse, r, ?_, ?_, ?_⟩
  · rw [← List.reverse_reverse front, hfront, List.reverse_append]
    rcases habove with rfl | ⟨above, rfl⟩
    · exact hends
    · -- the lines above come before the line
      rw [List.reverse_cons, List.append_assoc, List.append_assoc, List.append_assoc,
        List.singleton_append, Text.lines_append]
      rw [List.append_assoc] at hends
      exact List.mem_append_right _ hends
  · rw [List.getLast?_reverse, ← List.head?_reverse, hfront, List.head?_append,
      any_or_of_isLineEdge haboveEdge]
  · rw [List.head?_append, any_or_of_isLineEdge hrestEdge]

/-- **Lines and matches.** Some line of a text shows a pattern exactly if some match in the text
    crosses no line break. -/
theorem exists_line_occurs_iff {p : Pattern} {text : List Char} :
    (∃ line ∈ Text.lines text, p.occurs line = true) ↔
      ∃ front m back, p.IsMatch text front m back ∧ '\n' ∉ m := by
  simp only [Pattern.occurs_iff]
  constructor
  · rintro ⟨line, hline, l, m, r, rfl, hm⟩
    obtain ⟨front, back, hcut, hfront, hback⟩ := exists_cut_of_mem_lines hline
    refine ⟨front ++ l, m, r ++ back, ⟨by simp [hcut], ?_⟩, ?_⟩
    · -- what stands next to the line looks like its ends
      apply hm.congr
      · rw [List.getLast?_append, any_or_of_isLineEdge hfront]
      · rw [List.head?_append, any_or_of_isLineEdge hback]
    · have hnone : '\n' ∉ l ++ m ++ r := Text.notMem_of_mem_splitAt hline
      intro hmem
      exact hnone (by simp [hmem])
  · rintro ⟨front, m, back, ⟨rfl, hm⟩, hnone⟩
    obtain ⟨l, r, hline, hl, hr⟩ := exists_line_of_notMem hnone front back
    exact ⟨_, hline, l, m, r, rfl, hm.congr hl.symm hr.symm⟩

end SecurityScan.Source
