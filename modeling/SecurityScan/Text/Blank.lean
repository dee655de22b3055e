namespace SecurityScan.Text

/-!
# Blanks and lines

What counts as white space in prose and in source text, and how a text falls into lines.

* `isBlank` — the White_Space property of Unicode;
* `stripEnds` and `trim` — a text without certain characters, or the blanks, at either end;
* `lines` — the pieces of a text between line feeds, so that a text always has at least one line;
  `lines_append` — a line feed between two texts keeps the lines of both apart;
* `splitAt` — the pieces of a text between the occurrences of one character; `flatMap_splitAt` and
  `splitAt_append_flatMap` — they make up the text, and no others do;
* `replaceAll` — a text with the occurrences of a word replaced.
-/

/-- The characters with the White_Space property: a byte order mark and a zero-width space are not
    among them. -/
def isBlank (c : Char) : Bool :=
  let n := c.toNat
  (0x09 ≤ n && n ≤ 0x0d) || n == 0x20 || n == 0x85 || n == 0xa0 || n == 0x1680 ||
  (0x2000 ≤ n && n ≤ 0x200a) || n == 0x2028 || n == 0x2029 || n == 0x202f || n == 0x205f ||
  n == 0x3000

/-- A list of characters without those at either end that satisfy `p`. -/
def stripEnds (p : Char → Bool) (cs : List Char) : List Char :=
  ((cs.dropWhile p).reverse.dropWhile p).reverse

/-- A text without the blanks at either end. -/
def trim (s : String) : String := String.ofList (stripEnds isBlank s.toList)

/-- The blanks that pad a field inside a line. -/
def isPad (c : Char) : Bool := c = ' ' || c = '\t'

/-- The pieces of `cs` between occurrences of `sep`; there is one more piece than occurrences. -/
def splitAt (sep : Char) : List Char → List (List Char)
  | [] => [[]]
  | c :: cs =>
    if c = sep then [] :: splitAt sep cs
    else match splitAt sep cs with
      | [] => [[c]]
      | piece :: pieces => (c :: piece) :: pieces

theorem splitAt_ne_nil (sep : Char) (cs : List Char) : splitAt sep cs ≠ [] := by
  cases cs with
  | nil => simp [splitAt]
  | cons c cs =>
    simp only [splitAt]
    split
    · simp
    · split <;> simp

theorem splitAt_cons_self (sep : Char) (cs : List Char) :
    splitAt sep (sep :: cs) = [] :: splitAt sep cs := by
  rw [splitAt, if_pos rfl]

/-- A character that is no separator belongs to the first piece. -/
theorem splitAt_cons_of_ne {sep c : Char} (h : c ≠ sep) (cs : List Char) :
    ∃ piece pieces, splitAt sep cs = piece :: pieces ∧
      splitAt sep (c :: cs) = (c :: piece) :: pieces := by
  obtain ⟨piece, pieces, heq⟩ := List.exists_cons_of_ne_nil (splitAt_ne_nil sep cs)
  exact ⟨piece, pieces, heq, by rw [splitAt, if_neg h, heq]⟩

/-- No piece holds the separator. -/
theorem notMem_of_mem_splitAt {sep : Char} {cs piece : List Char} (h : piece ∈ splitAt sep cs) :
    sep ∉ piece := by
  induction cs generalizing piece with
  | nil =>
    rw [splitAt, List.mem_singleton] at h
    simp [h]
  | cons c cs ih =>
    by_cases hc : c = sep
    · rw [hc, splitAt_cons_self] at h
      rcases List.mem_cons.mp h with rfl | h
      · exact List.not_mem_nil
      · exact ih h
    · obtain ⟨first, pieces, heq, hcons⟩ := splitAt_cons_of_ne hc cs
      rw [hcons] at h
      rcases List.mem_cons.mp h with rfl | h
      · have hfirst : sep ∉ first := ih (heq ▸ List.mem_cons_self)
        exact List.not_mem_cons_of_ne_of_not_mem (Ne.symm hc) hfirst
      · exact ih (heq ▸ List.mem_cons_of_mem _ h)

/-- The pieces, each behind a separator, make up the text behind one. -/
theorem flatMap_splitAt (sep : Char) (cs : List Char) :
    (splitAt sep cs).flatMap (sep :: ·) = sep :: cs := by
  induction cs with
  | nil => rfl
  | cons c cs ih =>
    by_cases hc : c = sep
    · rw [hc, splitAt_cons_self, List.flatMap_cons, ih]
      rfl
    · obtain ⟨first, pieces, heq, hcons⟩ := splitAt_cons_of_ne hc cs
      rw [heq, List.flatMap_cons, List.cons_append, List.cons.injEq] at ih
      rw [hcons, List.flatMap_cons, List.cons_append, List.cons_append, ih.2]

/-- A text without the separator is one piece. -/
theorem splitAt_of_notMem {sep : Char} {cs : List Char} (h : sep ∉ cs) : splitAt sep cs = [cs] := by
  induction cs with
  | nil => rfl
  | cons c cs ih =>
    obtain ⟨hc, hcs⟩ := List.ne_and_not_mem_of_not_mem_cons h
    rw [splitAt, if_neg (Ne.symm hc), ih hcs]

/-- The first piece ends at the first separator. -/
theorem splitAt_append {sep : Char} {piece : List Char} (h : sep ∉ piece) (cs : List Char) :
    splitAt sep (piece ++ sep :: cs) = piece :: splitAt sep cs := by
  induction piece with
  | nil => exact splitAt_cons_self sep cs
  | cons c piece ih =>
    obtain ⟨hc, hpiece⟩ := List.ne_and_not_mem_of_not_mem_cons h
    rw [List.cons_append, splitAt, if_neg (Ne.symm hc), ih hpiece]

/-- Pieces without the separator are the pieces of the text that they make up. -/
theorem splitAt_append_flatMap {sep : Char} {piece : List Char} {pieces : List (List Char)}
    (hpiece : sep ∉ piece) (hpieces : ∀ p ∈ pieces, sep ∉ p) :
    splitAt sep (piece ++ pieces.flatMap (sep :: ·)) = piece :: pieces := by
  induction pieces generalizing piece with
  | nil => rw [List.flatMap_nil, List.append_nil, splitAt_of_notMem hpiece]
  | cons p ps ih =>
    obtain ⟨hp, hps⟩ := List.forall_mem_cons.mp hpieces
    rw [List.flatMap_cons, List.cons_append, splitAt_append hpiece, ih hp hps]

/-- The lines of a text: line feeds separate them and belong to none. -/
def lines (cs : List Char) : List (List Char) := splitAt '\n' cs

/-- The lines of two texts with a line feed between them are the lines of both. -/
theorem lines_append (a b : List Char) : lines (a ++ '\n' :: b) = lines a ++ lines b := by
  unfold lines
  induction a with
  | nil => exact splitAt_cons_self '\n' b
  | cons c a ih =>
    by_cases hc : c = '\n'
    · rw [hc, List.cons_append, splitAt_cons_self, splitAt_cons_self, ih, List.cons_append]
    · obtain ⟨first, rest, heq, hcons⟩ := splitAt_cons_of_ne hc a
      rw [heq, List.cons_append] at ih
      rw [hcons, List.cons_append, splitAt, if_neg hc, ih, List.cons_append]

/-- Whether `word` stands somewhere in `cs`. -/
def occurs (word : List Char) : List Char → Bool
  | [] => word.isEmpty
  | c :: cs => word.isPrefixOf (c :: cs) || occurs word cs

/-- Drops `lead` from the front of `cs` if it stands there. -/
def strip? (lead cs : List Char) : Option (List Char) :=
  if lead.isPrefixOf cs then some (cs.drop lead.length) else none

/-- Replaces each occurrence of `word`, found from left to right, by `insert`; an empty `word`
    replaces nothing. -/
def replaceAll (word insert : List Char) : List Char → List Char
  | [] => []
  | c :: cs =>
    if word ≠ [] ∧ word.isPrefixOf (c :: cs) then
      insert ++ replaceAll word insert ((c :: cs).drop (max 1 word.length))
    else c :: replaceAll word insert cs
termination_by cs => cs.length
decreasing_by all_goals
  simp only [List.length_drop, List.length_cons]
  omega

theorem replaceAll_nil (word insert : List Char) : replaceAll word insert [] = [] := by
  rw [replaceAll]

/-- An occurrence at the front is replaced. -/
theorem replaceAll_append {word : List Char} (hword : word ≠ []) (insert cs : List Char) :
    replaceAll word insert (word ++ cs) = insert ++ replaceAll word insert cs := by
  obtain ⟨c, word, rfl⟩ := List.exists_cons_of_ne_nil hword
  rw [List.cons_append, replaceAll, if_pos ⟨hword, by simp⟩]
  simp

/-- A character where no occurrence starts stays. -/
theorem replaceAll_cons_of_not {word cs : List Char} {c : Char} (h : ¬ word <+: c :: cs)
    (insert : List Char) :
    replaceAll word insert (c :: cs) = c :: replaceAll word insert cs := by
  rw [replaceAll, if_neg]
  rintro ⟨_, hprefix⟩
  exact h (List.isPrefixOf_iff_prefix.mp hprefix)

end SecurityScan.Text
