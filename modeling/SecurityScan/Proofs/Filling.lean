import Mathlib.Data.List.Infix
import SecurityScan.Proofs.Mention
import SecurityScan.Review.Prompt

namespace SecurityScan

/-!
# What the question holds where its template has places

The name of the language is put in first and the source text second, each by a search of the whole
text for its place.

* `Text.occurrence_induction` — a text as the occurrences of a word and the characters in front of
  which none starts, which is how `Text.replaceAll` goes through it;
* `Text.replaceAll_append_cons` — no occurrence reaches across a character that the word does not
  hold, so both sides of it are gone through apart;
* `Text.exists_gaps` — the text is its gaps with the word between them, and the result the same gaps
  with what is put in between them;
* `Text.replaceAll_eq_self_iff` — so a text stays as it is if the word does not occur, or if it is
  put in for itself;
* `Review.splitAt_template` — the template is cut in three by the two places that it has;
* `Review.question_eq` — so the source text comes in at its place and wherever the name of the
  language holds one;
* `Review.question_fills` — the source text stands in the question as it is, and the name of the
  language does if it holds no place for the source text.
-/

namespace Text

/-- There is one more piece than separators. -/
theorem length_splitAt (sep : Char) (cs : List Char) :
    (splitAt sep cs).length = cs.count sep + 1 := by
  induction cs with
  | nil => rfl
  | cons c cs ih =>
    by_cases hc : c = sep
    · rw [hc, splitAt_cons_self, List.length_cons, ih, List.count_cons_self]
    · obtain ⟨piece, pieces, heq, hcons⟩ := splitAt_cons_of_ne hc cs
      rw [hcons, List.count_cons_of_ne hc, ← ih, heq, List.length_cons, List.length_cons]

/-! ### Occurrences -/

section

variable {word : List Char}

/-- A text is empty, or an occurrence of the word stands at its front, or a character stands there
    with which none starts. -/
@[elab_as_elim]
theorem occurrence_induction (hword : word ≠ []) {motive : List Char → Prop} (nil : motive [])
    (append : ∀ cs, motive cs → motive (word ++ cs))
    (cons : ∀ c cs, ¬ word <+: c :: cs → motive cs → motive (c :: cs)) (cs : List Char) :
    motive cs := by
  induction cs using replaceAll.induct word with
  | case1 => exact nil
  | case2 c cs h ih =>
    obtain ⟨rest, hrest⟩ := List.isPrefixOf_iff_prefix.mp h.2
    have hpos : max 1 word.length = word.length :=
      Nat.max_eq_right (List.length_pos_iff.mpr hword)
    rw [hpos, ← hrest, List.drop_left] at ih
    rw [← hrest]
    exact append rest ih
  | case3 c cs h ih =>
    exact cons c cs (fun hp => h ⟨hword, List.isPrefixOf_iff_prefix.mpr hp⟩) ih

/-- A front without the first character of the word stays. -/
theorem replaceAll_append_of_notMem {c : Char} {front : List Char} (hc : c ∉ front)
    (insert cs : List Char) :
    replaceAll (c :: word) insert (front ++ cs) = front ++ replaceAll (c :: word) insert cs := by
  induction front with
  | nil => rfl
  | cons d front ih =>
    obtain ⟨hd, hfront⟩ := List.ne_and_not_mem_of_not_mem_cons hc
    have hnone : ¬ c :: word <+: d :: (front ++ cs) := fun h => hd (List.cons_prefix_cons.mp h).1
    rw [List.cons_append, replaceAll_cons_of_not hnone, ih hfront, List.cons_append]

theorem replaceAll_of_notMem {c : Char} {cs : List Char} (hc : c ∉ cs) (insert : List Char) :
    replaceAll (c :: word) insert cs = cs := by
  have h := @replaceAll_append_of_notMem word c cs hc insert []
  rwa [replaceAll_nil, List.append_nil] at h

/-- The two sides of a character that the word does not hold are gone through apart. -/
theorem replaceAll_append_cons (hword : word ≠ []) {c : Char} (hc : c ∉ word)
    (insert as bs : List Char) :
    replaceAll word insert (as ++ c :: bs) =
      replaceAll word insert as ++ c :: replaceAll word insert bs := by
  induction as using occurrence_induction hword with
  | nil =>
    have hnone : ¬ word <+: c :: bs := fun h =>
      hword (List.prefix_nil.mp (@prefix_of_prefix_append_cons word [] bs c hc h))
    rw [replaceAll_nil, List.nil_append, List.nil_append, replaceAll_cons_of_not hnone]
  | append as ih =>
    rw [List.append_assoc, replaceAll_append hword, replaceAll_append hword, ih,
      List.append_assoc]
  | cons a as hnone ih =>
    have hacross : ¬ word <+: a :: (as ++ c :: bs) := fun h =>
      hnone (@prefix_of_prefix_append_cons word (a :: as) bs c hc h)
    rw [List.cons_append, replaceAll_cons_of_not hacross, replaceAll_cons_of_not hnone, ih,
      List.cons_append]

/-- A text is its gaps with the word between them, and replacing the word keeps the gaps. -/
theorem exists_gaps (hword : word ≠ []) (cs : List Char) :
    ∃ first rest, cs = first ++ rest.flatMap (word ++ ·) ∧
      (∀ insert, replaceAll word insert cs = first ++ rest.flatMap (insert ++ ·)) ∧
      (word <:+: cs → rest ≠ []) := by
  induction cs using occurrence_induction hword with
  | nil =>
    exact ⟨[], [], rfl, fun insert => replaceAll_nil word insert, fun h =>
      absurd (List.infix_nil.mp h) hword⟩
  | append cs ih =>
    obtain ⟨first, rest, hcs, hreplaced, -⟩ := ih
    refine ⟨[], first :: rest, ?_, fun insert => ?_, fun _ => List.cons_ne_nil _ _⟩
    · rw [List.flatMap_cons, List.append_assoc, ← hcs, List.nil_append]
    · rw [replaceAll_append hword, hreplaced, List.flatMap_cons, List.append_assoc,
        List.nil_append]
  | cons c cs hnone ih =>
    obtain ⟨first, rest, hcs, hreplaced, hoccurs⟩ := ih
    refine ⟨c :: first, rest, ?_, fun insert => ?_, fun h => ?_⟩
    · rw [List.cons_append, ← hcs]
    · rw [replaceAll_cons_of_not hnone, hreplaced, List.cons_append]
    · exact hoccurs ((List.infix_cons_iff.mp h).resolve_left hnone)

theorem length_flatMap_append (insert : List Char) (gaps : List (List Char)) :
    (gaps.flatMap (insert ++ ·)).length = gaps.length * insert.length + gaps.flatten.length := by
  induction gaps with
  | nil => simp
  | cons gap gaps ih =>
    rw [List.flatMap_cons, List.length_append, List.length_append, ih, List.length_cons,
      List.flatten_cons, List.length_append, Nat.succ_mul]
    omega

/-- **Texts that stay.** Replacing a word leaves a text as it is if the word does not occur, or if
    it is replaced by itself. -/
theorem replaceAll_eq_self_iff (hword : word ≠ []) {insert cs : List Char} :
    replaceAll word insert cs = cs ↔ ¬ word <:+: cs ∨ insert = word := by
  obtain ⟨first, rest, hcs, hreplaced, hoccurs⟩ := exists_gaps hword cs
  rw [hreplaced]
  constructor
  · intro hself
    by_cases h : word <:+: cs
    · refine .inr ?_
      have hgaps : rest.flatMap (insert ++ ·) = rest.flatMap (word ++ ·) :=
        List.append_cancel_left (hself.trans hcs)
      -- as many gaps on both sides, so both words are equally long
      have hlength := congrArg List.length hgaps
      rw [length_flatMap_append, length_flatMap_append, Nat.add_right_cancel_iff] at hlength
      obtain ⟨gap, gaps, rfl⟩ := List.exists_cons_of_ne_nil (hoccurs h)
      rw [List.flatMap_cons, List.flatMap_cons, List.append_assoc, List.append_assoc] at hgaps
      exact List.append_inj_left hgaps
        (Nat.eq_of_mul_eq_mul_left (Nat.succ_pos gaps.length) hlength)
    · exact .inl h
  · rintro (h | rfl)
    · have hrest : rest = [] := by
        cases rest with
        | nil => rfl
        | cons gap gaps =>
          refine absurd ?_ h
          rw [hcs, List.flatMap_cons, ← List.append_assoc, ← List.append_assoc]
          exact ⟨first, gap ++ gaps.flatMap (word ++ ·), by simp⟩
      rw [hcs, hrest, List.flatMap_nil, List.flatMap_nil]
    · exact hcs.symm

end

end Text

namespace Review

/-! ### The question -/

/-- The first character of a place. -/
def brace : Char := '\x7b'

theorem languagePlace_toList : languagePlace.toList = brace :: "language\x7d".toList := by decide

theorem codePlace_toList : codePlace.toList = brace :: "code\x7d".toList := by decide

/-- The place for the source text is none for the name of the language. -/
theorem not_infix_codePlace_append {cs : List Char} (h : brace ∉ cs) :
    ¬ languagePlace.toList <:+: codePlace.toList ++ cs := by
  intro hinfix
  rcases List.infix_cons_iff.mp hinfix with hw | hw
  · exact absurd (List.cons_prefix_cons.mp (List.cons_prefix_cons.mp hw).2).1 (by decide)
  · exact List.not_mem_append (by decide) h (hw.subset List.mem_cons_self)

/-- The template holds two braces.  The first starts the place for the name of the language, with a
    blank behind it, and the second that for the source text. -/
theorem splitAt_template : (Text.splitAt brace template.toList).map (·.take 10) =
    ["Analyze th".toList, "language\x7d ".toList, "code\x7d\n\nPro".toList] := by
  -- the characters of a literal are read off by the lemma, since computing them is slow
  simp only [template, templateLines, languagePlace, codePlace, String.toList_join,
    String.toList_append, List.map_cons, List.map_nil, List.flatMap_cons, List.flatMap_nil]
  repeat rw [String.toList_ofList]
  decide +kernel

/-- The template has its two places, that for the name of the language first. -/
theorem exists_template_eq : ∃ opening middle closing : String,
    template = opening ++ languagePlace ++ middle ++ codePlace ++ closing := by
  obtain ⟨opening, pieces, hpieces, -, hrest⟩ := List.map_eq_cons_iff.mp splitAt_template
  obtain ⟨second, pieces, rfl, hsecond, hrest⟩ := List.map_eq_cons_iff.mp hrest
  obtain ⟨third, pieces, rfl, hthird, hrest⟩ := List.map_eq_cons_iff.mp hrest
  have hparts := Text.flatMap_splitAt brace template.toList
  rw [hpieces, List.map_eq_nil_iff.mp hrest] at hparts
  refine ⟨String.ofList opening, String.ofList (' ' :: second.drop 10),
    String.ofList ("\n\nPro".toList ++ third.drop 10), ?_⟩
  rw [← List.take_append_drop 10 second, hsecond, ← List.take_append_drop 10 third, hthird,
    List.flatMap_cons, List.flatMap_cons, List.flatMap_cons, List.flatMap_nil, List.append_nil,
    List.cons_append, List.cons.injEq] at hparts
  apply String.toList_injective
  rw [← hparts.2]
  simp only [String.toList_append, String.toList_ofList, List.append_assoc]
  rfl

section

variable {opening middle closing : String}
  (h : template = opening ++ languagePlace ++ middle ++ codePlace ++ closing)

include h

/-- No part of the template apart from its two places holds a brace. -/
theorem brace_notMem :
    brace ∉ opening.toList ∧ brace ∉ middle.toList ∧ brace ∉ closing.toList := by
  have htwo : template.toList.count brace + 1 = 3 := by
    rw [← Text.length_splitAt, ← List.length_map, splitAt_template]
    rfl
  have hlanguage : languagePlace.toList.count brace = 1 := by decide
  have hcode : codePlace.toList.count brace = 1 := by decide
  rw [h] at htwo
  simp only [String.toList_append, List.count_append] at htwo
  simp only [← List.count_eq_zero]
  omega

/-- A blank follows the name of the language. -/
theorem exists_middle_eq_cons : ∃ rest, middle.toList = ' ' :: rest := by
  obtain ⟨hopening, hbetween, -⟩ := brace_notMem h
  have hname : brace ∉ "language\x7d".toList ++ middle.toList :=
    List.not_mem_append (by decide) hbetween
  have hpieces : Text.splitAt brace template.toList =
      opening.toList :: ("language\x7d".toList ++ middle.toList) ::
        Text.splitAt brace ("code\x7d".toList ++ closing.toList) := by
    rw [h, ← Text.splitAt_append hname, ← Text.splitAt_append hopening]
    simp only [String.toList_append, List.append_assoc]
    rfl
  have hstarts := splitAt_template
  rw [hpieces] at hstarts
  have hsecond : ("language\x7d".toList ++ middle.toList).take 10 = "language\x7d ".toList :=
    (List.cons.inj (List.cons.inj hstarts).2).1
  cases hmiddle : middle.toList with
  | nil =>
    rw [hmiddle] at hsecond
    exact absurd hsecond (by decide)
  | cons c rest =>
    rw [hmiddle] at hsecond
    have hblank : [c] = [' '] := @List.append_cancel_left Char "language\x7d".toList _ _ hsecond
    exact ⟨rest, congrArg (· :: rest) (List.cons.inj hblank).1⟩

/-- The name of the language is put in at its place and nowhere else. -/
theorem fill_template (language : String) :
    fill languagePlace language template.toList =
      opening.toList ++ (language.toList ++
        (middle.toList ++ (codePlace.toList ++ closing.toList))) := by
  obtain ⟨hopening, hmiddle, hclosing⟩ := brace_notMem h
  have hcode : Text.replaceAll languagePlace.toList language.toList
      (codePlace.toList ++ closing.toList) = codePlace.toList ++ closing.toList :=
    (Text.replaceAll_eq_self_iff (by decide)).mpr (.inl (not_infix_codePlace_append hclosing))
  calc fill languagePlace language template.toList
      = Text.replaceAll languagePlace.toList language.toList (opening.toList ++
          (languagePlace.toList ++ (middle.toList ++ (codePlace.toList ++ closing.toList)))) := by
        rw [fill, h]
        simp only [String.toList_append, List.append_assoc]
    _ = opening.toList ++ (language.toList ++ Text.replaceAll languagePlace.toList language.toList
          (middle.toList ++ (codePlace.toList ++ closing.toList))) := by
        rw [← Text.replaceAll_append (by decide), languagePlace_toList,
          Text.replaceAll_append_of_notMem hopening]
    _ = opening.toList ++ (language.toList ++
          (middle.toList ++ (codePlace.toList ++ closing.toList))) := by
        rw [languagePlace_toList, Text.replaceAll_append_of_notMem hmiddle,
          ← languagePlace_toList, hcode]

/-- The source text is put in at its place, and at each place for it in the name of the language. -/
theorem question_eq (code language : String) :
    question code language =
      opening ++ String.ofList (fill codePlace code language.toList) ++ middle ++ code ++
        closing := by
  obtain ⟨hopening, hmiddle, hclosing⟩ := brace_notMem h
  obtain ⟨rest, hrest⟩ := exists_middle_eq_cons h
  -- from the blank behind the name of the language on, the template stands as it is
  have hbehind : Text.replaceAll codePlace.toList code.toList
      (rest ++ (codePlace.toList ++ closing.toList)) = rest ++ (code.toList ++ closing.toList) := by
    have hfront : brace ∉ rest := fun hmem => hmiddle (hrest ▸ List.mem_cons_of_mem _ hmem)
    rw [codePlace_toList, Text.replaceAll_append_of_notMem hfront, ← codePlace_toList,
      Text.replaceAll_append (by decide), codePlace_toList, Text.replaceAll_of_notMem hclosing]
  have hname : Text.replaceAll codePlace.toList code.toList
      (language.toList ++ (middle.toList ++ (codePlace.toList ++ closing.toList))) =
      fill codePlace code language.toList ++ (middle.toList ++ (code.toList ++ closing.toList)) := by
    rw [hrest, List.cons_append, Text.replaceAll_append_cons (by decide) (by decide), hbehind]
    rfl
  have hlist : fill codePlace code (fill languagePlace language template.toList) =
      opening.toList ++ (fill codePlace code language.toList ++
        (middle.toList ++ (code.toList ++ closing.toList))) := by
    rw [fill_template h, ← hname, fill, codePlace_toList, Text.replaceAll_append_of_notMem hopening]
  rw [question, hlist]
  apply String.toList_injective
  simp only [String.toList_ofList, String.toList_append, List.append_assoc]

end

/-- **The question.** However the template is cut at its two places, the question holds the text in
    front of the first, what comes in for the name of the language, the text between them, the
    source text as it is, and the text behind the second.  The name of the language comes in as it
    is exactly if it holds no place for the source text, or if that place is the source text. -/
theorem question_fills {opening middle closing : String}
    (h : template = opening ++ languagePlace ++ middle ++ codePlace ++ closing)
    (code language : String) :
    question code language = opening ++ String.ofList (fill codePlace code language.toList) ++
        middle ++ code ++ closing ∧
      (question code language = opening ++ language ++ middle ++ code ++ closing ↔
        ¬ codePlace.toList <:+: language.toList ∨ code = codePlace) := by
  have hself : fill codePlace code language.toList = language.toList ↔
      ¬ codePlace.toList <:+: language.toList ∨ code = codePlace := by
    rw [fill, Text.replaceAll_eq_self_iff (by decide), String.toList_inj]
  refine ⟨question_eq h code language, ?_⟩
  rw [question_eq h, ← hself, ← String.toList_inj]
  simp only [String.toList_append, String.toList_ofList, List.append_cancel_right_eq,
    List.append_cancel_left_eq]

theorem question_fills_otherPlaces : ∃ opening middle closing : String,
    template = opening ++ languagePlace ++ middle ++ codePlace ++ closing ∧
    question "\x7blanguage\x7d, \x7bcode\x7d" "\x7blanguage\x7d\x7bco" =
      opening ++ "\x7blanguage\x7d\x7bco" ++ middle ++ "\x7blanguage\x7d, \x7bcode\x7d" ++
        closing := by
  obtain ⟨opening, middle, closing, h⟩ := exists_template_eq
  exact ⟨opening, middle, closing, h, (question_fills h _ _).2.mpr (.inl (by decide))⟩

/-- A place for the source text in the name of the language is filled, so that the source text
    stands twice in the question and the name of the language not at all. -/
theorem codePlace_in_language_filled : ∃ opening middle closing : String,
    template = opening ++ languagePlace ++ middle ++ codePlace ++ closing ∧
    question "x" "\x7bcode\x7d" = opening ++ "x" ++ middle ++ "x" ++ closing ∧
    question "x" "\x7bcode\x7d" ≠ opening ++ "\x7bcode\x7d" ++ middle ++ "x" ++ closing := by
  obtain ⟨opening, middle, closing, h⟩ := exists_template_eq
  have hfilled := @Text.replaceAll_append codePlace.toList (by decide) "x".toList []
  rw [Text.replaceAll_nil, List.append_nil, List.append_nil] at hfilled
  have hquestion := question_eq h "x" codePlace
  rw [fill, hfilled, String.ofList_toList] at hquestion
  refine ⟨opening, middle, closing, h, hquestion, fun heq => ?_⟩
  have hlength := congrArg String.length (hquestion.symm.trans heq)
  simp only [String.length_append] at hlength
  have hnames : "x".length ≠ "\x7bcode\x7d".length := by decide
  omega

end Review

end SecurityScan
