import SecurityScan.Source.Pattern

namespace SecurityScan.Source

open Text

/-!
# Where patterns match

What a pattern sees of the text around the place where it is tried, and what it takes to match
somewhere.

* `fits_one_cons`, `fits_run`, `fits_word`, `fits_edge` — one piece of a pattern at a time;
* `fits_congr_before` — of the character before a place, a pattern sees whether it is part of a
  word, and nothing else;
* `occursFrom_iff` — a pattern matches somewhere exactly if a text can be cut where it fits;
* `occurs_literal` — looking for a literal text is looking for that text.
-/

theorem runThen_nil (k : CharClass) (after : Option Char → List Char → Bool)
    (before : Option Char) : runThen k after before [] = after before [] := rfl

theorem runThen_cons (k : CharClass) (after : Option Char → List Char → Bool)
    (before : Option Char) (x : Char) (xs : List Char) :
    runThen k after before (x :: xs) =
      (after before (x :: xs) || (k.has x && runThen k after (some x) xs)) := rfl

/-- A run may be empty. -/
theorem runThen_of_after {k : CharClass} {after : Option Char → List Char → Bool}
    {before : Option Char} {xs : List Char} (h : after before xs = true) :
    runThen k after before xs = true := by
  cases xs with
  | nil => exact h
  | cons x xs => rw [runThen_cons, h, Bool.true_or]

namespace Pattern

/-! ### One piece at a time -/

theorem fits_nil (before : Option Char) (xs : List Char) : fits [] before xs = true := rfl

theorem fits_one_nil (k : CharClass) (ps : Pattern) (before : Option Char) :
    fits (.one k :: ps) before [] = false := rfl

theorem fits_one_cons (k : CharClass) (ps : Pattern) (before : Option Char) (x : Char)
    (xs : List Char) :
    fits (.one k :: ps) before (x :: xs) = (k.has x && fits ps (some x) xs) := rfl

theorem fits_run (k : CharClass) (ps : Pattern) (before : Option Char) (xs : List Char) :
    fits (.run k :: ps) before xs = runThen k (fits ps) before xs := rfl

theorem fits_word (choices : List String) (ps : Pattern) (before : Option Char)
    (xs : List Char) :
    fits (.word choices :: ps) before xs = choices.any fun w =>
      w.toList.isPrefixOf xs &&
        fits ps (w.toList.getLast?.or before) (xs.drop w.toList.length) := rfl

theorem fits_edge (ps : Pattern) (before : Option Char) (xs : List Char) :
    fits (.edge :: ps) before xs = (isEdge before xs.head? && fits ps before xs) := rfl

/-! ### The place of a match -/

/-- The last character of a front that starts with `x` does not depend on what comes before `x`. -/
theorem getLast?_cons_or (x : Char) (front : List Char) (before : Option Char) :
    (x :: front).getLast?.or before = front.getLast?.or (some x) := by
  rw [List.getLast?_cons]
  cases front.getLast? <;> rfl

/-- **What a pattern sees of what comes before.** Two characters that are both part of a word, or
    both not, make no difference, and neither does the start of the text. -/
theorem fits_congr_before {before before' : Option Char}
    (h : before.any isWordChar = before'.any isWordChar) (p : Pattern) (xs : List Char) :
    p.fits before xs = p.fits before' xs := by
  induction p generalizing xs with
  | nil => rfl
  | cons piece ps ih =>
    cases piece with
    | one k => cases xs <;> rfl
    | run k =>
      -- what follows a character of the run does not see what came before the run
      rw [fits_run, fits_run]
      cases xs with
      | nil => exact ih []
      | cons x xs => rw [runThen_cons, runThen_cons, ih]
    | word choices =>
      rw [fits_word, fits_word]
      congr 1
      funext w
      cases hlast : w.toList.getLast? with
      | none => rw [Option.none_or, Option.none_or, ih]
      | some c => rw [Option.some_or, Option.some_or]
    | edge =>
      rw [fits_edge, fits_edge, ih, isEdge, isEdge, h]

/-- **The place of a match.** A pattern matches somewhere in a text exactly if the text can be cut
    in two so that the pattern fits the second part behind the first. -/
theorem occursFrom_iff {p : Pattern} {before : Option Char} {xs : List Char} :
    p.occursFrom before xs = true ↔
      ∃ front back, xs = front ++ back ∧ p.fits (front.getLast?.or before) back = true := by
  induction xs generalizing before with
  | nil =>
    constructor
    · intro h
      exact ⟨[], [], rfl, h⟩
    · rintro ⟨front, back, hcut, h⟩
      obtain ⟨rfl, rfl⟩ := List.append_eq_nil_iff.mp hcut.symm
      exact h
  | cons x xs ih =>
    rw [occursFrom, Bool.or_eq_true, ih]
    constructor
    · rintro (h | ⟨front, back, rfl, h⟩)
      · exact ⟨[], x :: xs, rfl, h⟩
      · exact ⟨x :: front, back, rfl, by rwa [getLast?_cons_or]⟩
    · rintro ⟨front, back, hcut, h⟩
      cases front with
      | nil =>
        left
        rwa [hcut]
      | cons y front =>
        obtain ⟨rfl, rfl⟩ := List.cons.inj hcut
        right
        exact ⟨front, back, rfl, by rwa [← getLast?_cons_or]⟩

/-! ### Literal texts -/

/-- A literal text takes its characters, and what follows it has the rest. -/
theorem fits_literal_append (s : String) (ps : Pattern) (before : Option Char) (xs : List Char) :
    (literal s ++ ps).fits before xs =
      (s.toList.isPrefixOf xs &&
        ps.fits (s.toList.getLast?.or before) (xs.drop s.toList.length)) := by
  unfold literal
  induction s.toList generalizing before xs with
  | nil => simp
  | cons c cs ih =>
    cases xs with
    | nil => rfl
    | cons x xs =>
      rw [List.map_cons, List.cons_append, fits_one_cons, ih, CharClass.has,
        List.isPrefixOf_cons_cons, List.length_cons, List.drop_succ_cons, Bool.and_assoc]
      by_cases hx : x = c
      · rw [hx, getLast?_cons_or, BEq.rfl]
      · rw [beq_false_of_ne hx, beq_false_of_ne (Ne.symm hx), Bool.false_and, Bool.false_and]

theorem fits_literal (s : String) (before : Option Char) (xs : List Char) :
    (literal s).fits before xs = s.toList.isPrefixOf xs := by
  rw [← List.append_nil (literal s), fits_literal_append, fits_nil, Bool.and_true]

/-- Looking for a literal text is looking for that text. -/
theorem occurs_literal (s : String) (xs : List Char) :
    (literal s).occurs xs = Text.occurs s.toList xs := by
  have hfrom : ∀ before, (literal s).occursFrom before xs = Text.occurs s.toList xs := by
    intro before
    induction xs generalizing before with
    | nil =>
      rw [occursFrom, fits_literal, Text.occurs]
      cases s.toList <;> rfl
    | cons x xs ih => rw [occursFrom, fits_literal, Text.occurs, ih]
  exact hfrom none

end Pattern

end SecurityScan.Source
