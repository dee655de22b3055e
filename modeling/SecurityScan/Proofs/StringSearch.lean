import SecurityScan.Proofs.Mention
import SecurityScan.Proofs.Rereading
import SecurityScan.Rule.Table

namespace SecurityScan

open Text Decimal

/-!
# A search in a compact text searches its strings

What the searches for sensitive words and for rate limits find in the compact text of a value, they
find inside one key or string of it.

* `Searchable` — what makes a word foreign to punctuation, numbers and literals; the words of the
  rules are such words;
* `Lowers` — a text in lower case, as far as Unicode settles it for ASCII letters;
  `mentions_iff_of_lowers` — a search in any such text has the answer of `mentions`;
* `Json.printed_tokens` — a compact text is made of the value's tokens;
* `InString` and `Confined` — an occurrence lies inside one string among some tokens; all of them
  do;
* `Confined.mark`, `Confined.string` — what no occurrence reaches across;
* `confined_tokens` — so all occurrences in a compact text lie inside keys and strings;
* `mentions_chars_iff` — and the text mentions a word exactly if the escaped form of some key or
  string does.
-/

/-! ### Words -/

theorem toNat_of_isLower {c : Char} (h : c.isLower = true) :
    'a'.toNat ≤ c.toNat ∧ c.toNat ≤ 'z'.toNat := by
  delta Char.isLower at h
  rw [Bool.and_eq_true, decide_eq_true_eq, decide_eq_true_eq] at h
  exact h

/-- A word that can stand in no number and in no literal, and has no character in common with
    punctuation or with escapes. -/
structure Searchable (word : List Char) : Prop where
  letters : ∀ c ∈ word, c.isLower = true
  unescaped : ∀ c ∈ word, Json.escapeChar c = [c]
  /-- The mark of an exponent is the one letter of numbers. -/
  not_exponent : ∃ c ∈ word, c ≠ 'e'
  not_literal : ∀ literal ∈ ["null", "true", "false"], ¬ word <:+: literal.toList

instance : DecidablePred Searchable := fun word =>
  decidable_of_iff
    ((word.all fun c => c.isLower && Json.escapeChar c == [c]) = true ∧
      (word.any fun c => c != 'e') = true ∧
      ∀ literal ∈ ["null", "true", "false"], ¬ word <:+: literal.toList) <| by
    constructor
    · rintro ⟨hplain, hexponent, hliteral⟩
      simp only [List.all_eq_true, List.any_eq_true, Bool.and_eq_true, beq_iff_eq, bne_iff_ne]
        at hplain hexponent
      exact ⟨fun c hc => (hplain c hc).1, fun c hc => (hplain c hc).2, hexponent, hliteral⟩
    · rintro ⟨hletters, hunescaped, hexponent, hliteral⟩
      simp only [List.all_eq_true, List.any_eq_true, Bool.and_eq_true, beq_iff_eq, bne_iff_ne]
      exact ⟨fun c hc => ⟨hletters c hc, hunescaped c hc⟩, hexponent, hliteral⟩

/-- The words of the rules are searchable. -/
theorem searchable_of_mem {word : String}
    (h : word ∈ Rule.RateLimiting.keyword :: Rule.DataExposure.keywords) :
    Searchable word.toList := by
  have hall : ∀ word ∈ Rule.RateLimiting.keyword :: Rule.DataExposure.keywords,
      Searchable word.toList := by decide +kernel
  exact hall word h

namespace Searchable

variable {word : List Char}

theorem ne_nil (h : Searchable word) : word ≠ [] := by
  rintro rfl
  obtain ⟨c, hc, _⟩ := h.not_exponent
  cases hc

theorem notMem (h : Searchable word) {c : Char} (hc : c.isLower = false) : c ∉ word := by
  intro hmem
  rw [h.letters c hmem] at hc
  cases hc

/-- Only ASCII characters are in the word. -/
theorem notMem_of_le (h : Searchable word) {c : Char} (hc : 128 ≤ c.toNat) : c ∉ word := by
  refine h.notMem (Bool.eq_false_iff.mpr fun hlower => ?_)
  exact absurd (Nat.le_trans hc (toNat_of_isLower hlower).2) (by decide)

end Searchable

/-! ### Lower case -/

/-- A character in lower case.  For characters outside ASCII it is only settled that no ASCII
    character is in it, with two exceptions: the Kelvin sign and the capital I with a dot. -/
inductive LowerOf : Char → List Char → Prop where
  | ascii {c : Char} : c.toNat < 128 → LowerOf c [c.toLower]
  | kelvin : LowerOf '\u212a' ['k']
  | dottedI : LowerOf '\u0130' ['i', '\u0307']
  | other {c : Char} {piece : List Char} : 128 ≤ c.toNat → c ≠ '\u212a' → c ≠ '\u0130' →
      piece ≠ [] → (∀ d ∈ piece, 128 ≤ d.toNat) → LowerOf c piece

/-- `Lowers cs ds`: the text `ds` is `cs` in lower case, one character after the other.  What
    becomes of a character outside ASCII may depend on its place. -/
inductive Lowers : List Char → List Char → Prop where
  | nil : Lowers [] []
  | cons {c : Char} {piece cs ds : List Char} :
      LowerOf c piece → Lowers cs ds → Lowers (c :: cs) (piece ++ ds)

theorem foldChar_of_lt_128 {c : Char} (h : c.toNat < 128) : foldChar c = [c.toLower] := by
  have hne : ∀ d : Char, 128 ≤ d.toNat → c ≠ d := by
    rintro d hd rfl
    exact absurd h (Nat.not_lt.mpr hd)
  rw [foldChar, if_neg (hne _ (by decide)), if_neg (hne _ (by decide))]

theorem foldChar_of_le {c : Char} (h : 128 ≤ c.toNat) (hkelvin : c ≠ '\u212a')
    (hdotted : c ≠ '\u0130') : foldChar c = [c] := by
  have hlower : c.toLower = c := dif_neg fun hupper =>
    absurd (Nat.le_trans h hupper.2) (by decide)
  rw [foldChar, if_neg hkelvin, if_neg hdotted, hlower]

/-- The lower case that `mentions` searches is one. -/
theorem lowers_foldCase (cs : List Char) : Lowers cs (foldCase cs) := by
  induction cs with
  | nil => exact .nil
  | cons c cs ih =>
    refine .cons ?_ ih
    by_cases hascii : c.toNat < 128
    · rw [foldChar_of_lt_128 hascii]
      exact .ascii hascii
    · by_cases hkelvin : c = '\u212a'
      · rw [hkelvin]
        exact .kelvin
      · by_cases hdotted : c = '\u0130'
        · rw [hdotted]
          exact .dottedI
        · have hle : 128 ≤ c.toNat := Nat.not_lt.mp hascii
          rw [foldChar_of_le hle hkelvin hdotted]
          exact .other hle hkelvin hdotted (List.cons_ne_nil _ _) (by simpa using hle)

/-- A word does not reach across characters that it does not hold. -/
theorem infix_append_foreign_iff {word front piece rest : List Char} (hword : word ≠ [])
    (hpiece : piece ≠ []) (hforeign : ∀ d ∈ piece, d ∉ word) :
    word <:+: front ++ (piece ++ rest) ↔ word <:+: front ∨ word <:+: rest := by
  have hskip : ∀ piece : List Char, (∀ d ∈ piece, d ∉ word) → word <:+: piece ++ rest →
      word <:+: rest := by
    intro piece
    induction piece with
    | nil => exact fun _ h => h
    | cons d piece ih =>
      intro hd h
      have hd' : d ∉ word := hd d List.mem_cons_self
      have hsides : word <:+: [] ∨ word <:+: piece ++ rest := infix_of_infix_append_cons hd' h
      rcases hsides with h | h
      · exact absurd (List.infix_nil.mp h) hword
      · exact ih (fun e he => hd e (List.mem_cons_of_mem _ he)) h
  obtain ⟨d, piece, rfl⟩ := List.exists_cons_of_ne_nil hpiece
  constructor
  · intro h
    rcases infix_of_infix_append_cons (hforeign d List.mem_cons_self) h with h | h
    · exact .inl h
    · exact .inr (hskip piece (fun e he => hforeign e (List.mem_cons_of_mem _ he)) h)
  · rintro (h | h)
    · exact h.trans (List.prefix_append _ _).isInfix
    · exact h.trans ⟨front ++ d :: piece, [], by simp⟩

/-- **Any lower case will do.** Whatever becomes of the characters outside ASCII, a searchable word
    is found in the lower case of a text exactly if the text mentions it. -/
theorem mentions_iff_of_lowers {word : String} (hword : Searchable word.toList)
    {cs ds : List Char} (h : Lowers cs ds) : mentions cs word = true ↔ word.toList <:+: ds := by
  rw [mentions, occurs_iff]
  -- the part of the text already read is kept in front
  have hfront : ∀ front, word.toList <:+: front ++ foldCase cs ↔ word.toList <:+: front ++ ds := by
    induction h with
    | nil => exact fun _ => Iff.rfl
    | @cons c piece cs ds hpiece _ ih =>
      intro front
      have hsplit : foldCase (c :: cs) = foldChar c ++ foldCase cs := List.flatMap_cons
      have hsame : foldChar c = piece →
          (word.toList <:+: front ++ foldCase (c :: cs) ↔
            word.toList <:+: front ++ (piece ++ ds)) := by
        rintro rfl
        rw [hsplit, ← List.append_assoc, ← List.append_assoc]
        exact ih _
      cases hpiece with
      | ascii hascii => exact hsame (foldChar_of_lt_128 hascii)
      | kelvin => exact hsame rfl
      | dottedI => exact hsame rfl
      | other hle hkelvin hdotted hne hpiece =>
        -- no occurrence reaches across the character, in either text
        have hforeign : ∀ d ∈ foldChar c, d ∉ word.toList := by
          rw [foldChar_of_le hle hkelvin hdotted]
          simpa using hword.notMem_of_le hle
        have hsome : foldChar c ≠ [] := by
          rw [foldChar_of_le hle hkelvin hdotted]
          exact List.cons_ne_nil _ _
        rw [hsplit, infix_append_foreign_iff hword.ne_nil hsome hforeign,
          infix_append_foreign_iff hword.ne_nil hne fun d hd => hword.notMem_of_le (hpiece d hd)]
        exact or_congr_right (ih [])
  exact hfront []

/-! ### Tokens in print -/

namespace Json

/-- The characters of a token in a compact text. -/
def Token.chars : Token → List Char
  | .openBracket => ['[']
  | .closeBracket => [']']
  | .openBrace => ['\x7b']
  | .closeBrace => ['\x7d']
  | .comma => [',']
  | .colon => [':']
  | .null => Json.null.chars
  | .bool b => (Json.bool b).chars
  | .num n => n.chars
  | .str s => quoted s

/-- The text that tokens make up without blanks. -/
def printed (ts : List Token) : List Char := ts.flatMap Token.chars

@[simp] theorem printed_nil : printed [] = [] := rfl

@[simp] theorem printed_cons (t : Token) (ts : List Token) :
    printed (t :: ts) = t.chars ++ printed ts := List.flatMap_cons

@[simp] theorem printed_append (ts us : List Token) :
    printed (ts ++ us) = printed ts ++ printed us := List.flatMap_append

mutual

/-- **A compact text is made of the value's tokens.** -/
theorem printed_tokens : ∀ v : Json, printed v.tokens = v.chars
  | .null | .bool _ | .num _ | .str _ => List.append_nil _
  | .arr [] => rfl
  | .arr (v :: vs) => by
    simp [tokens, chars, Token.chars, printed_tokens v, printed_tokensOfItems vs]
  | .obj [] => rfl
  | .obj ((k, v) :: ms) => by
    simp [tokens, chars, Token.chars, printed_tokens v, printed_tokensOfMembers ms]

theorem printed_tokensOfItems : ∀ vs : List Json, printed (tokensOfItems vs) = charsItems vs
  | [] => rfl
  | v :: vs => by
    simp [tokensOfItems, charsItems, Token.chars, printed_tokens v, printed_tokensOfItems vs]

theorem printed_tokensOfMembers :
    ∀ ms : List (String × Json), printed (tokensOfMembers ms) = charsMembers ms
  | [] => rfl
  | (k, v) :: ms => by
    simp [tokensOfMembers, charsMembers, Token.chars, printed_tokens v,
      printed_tokensOfMembers ms]

end

mutual

/-- The strings among the tokens of a value are its keys and strings. -/
theorem str_mem_tokens_iff {s : String} : ∀ v : Json, .str s ∈ v.tokens ↔ s ∈ v.texts
  | .null | .bool _ | .num _ | .str _ => by simp [tokens, texts]
  | .arr [] => by simp [tokens, texts, textsOfItems]
  | .arr (v :: vs) => by
    simp [tokens, texts, textsOfItems, str_mem_tokens_iff v, str_mem_tokensOfItems_iff vs]
  | .obj [] => by simp [tokens, texts, textsOfMembers]
  | .obj ((k, v) :: ms) => by
    simp [tokens, texts, textsOfMembers, str_mem_tokens_iff v, str_mem_tokensOfMembers_iff ms]

theorem str_mem_tokensOfItems_iff {s : String} :
    ∀ vs : List Json, .str s ∈ tokensOfItems vs ↔ s ∈ textsOfItems vs
  | [] => by simp [tokensOfItems, textsOfItems]
  | v :: vs => by
    simp [tokensOfItems, textsOfItems, str_mem_tokens_iff v, str_mem_tokensOfItems_iff vs]

theorem str_mem_tokensOfMembers_iff {s : String} :
    ∀ ms : List (String × Json), .str s ∈ tokensOfMembers ms ↔ s ∈ textsOfMembers ms
  | [] => by simp [tokensOfMembers, textsOfMembers]
  | (k, v) :: ms => by
    simp [tokensOfMembers, textsOfMembers, str_mem_tokens_iff v, str_mem_tokensOfMembers_iff ms]

end

/-! ### Numbers -/

/-- The characters that numbers are written with. -/
def isNumeric (c : Char) : Bool := c.isDigit || ['-', '+', '.', 'e'].contains c

theorem isNumeric_of_mem_digits {n : Nat} {c : Char} (h : c ∈ digits n) : isNumeric c = true := by
  rw [isNumeric, isDigit_of_mem_digits h, Bool.true_or]

theorem isNumeric_of_mem_exponent {layout : Layout} {e : Int} {c : Char}
    (h : c ∈ layout.exponent e) : isNumeric c = true := by
  rw [Layout.exponent, List.cons_append, List.mem_cons, List.mem_append] at h
  rcases h with rfl | h | h
  · decide
  · split at h
    · rw [List.mem_singleton.mp h]
      decide
    · split at h
      · rw [List.mem_singleton.mp h]
        decide
      · cases h
  · exact isNumeric_of_mem_digits h

/-- Digits are laid out with zeros, a point and an exponent. -/
theorem isNumeric_of_mem_writeDigits {layout : Layout} {ds : List Char} {k : Int}
    (hds : ∀ d ∈ ds, isNumeric d = true) :
    ∀ c ∈ layout.writeDigits ds k, isNumeric c = true := by
  have hzero : isNumeric '0' = true := by decide
  have hpoint : isNumeric '.' = true := by decide
  have hzeros : ∀ n, ∀ c ∈ List.replicate n '0', isNumeric c = true := by
    intro n c hc
    rw [List.eq_of_mem_replicate hc]
    exact hzero
  have htake : ∀ n, ∀ c ∈ ds.take n, isNumeric c = true := fun n c hc =>
    hds c (List.mem_of_mem_take hc)
  have hdrop : ∀ n, ∀ c ∈ ds.drop n, isNumeric c = true := fun n c hc =>
    hds c (List.mem_of_mem_drop hc)
  unfold Layout.writeDigits
  dsimp only
  split
  · split
    · simp only [List.forall_mem_append, List.forall_mem_cons]
      exact ⟨⟨hds, hzeros _⟩, hpoint, hzero, by simp⟩
    · split
      · simp only [List.forall_mem_append, List.forall_mem_cons]
        exact ⟨htake _, hpoint, hdrop _⟩
      · simp only [List.forall_mem_append, List.forall_mem_cons, List.cons_append]
        exact ⟨hzero, hpoint, hzeros _, hds⟩
  · cases ds with
    | nil => simp
    | cons d rest =>
      obtain ⟨hd, hrest⟩ := List.forall_mem_cons.mp hds
      have hexponent : ∀ e, ∀ c ∈ layout.exponent e, isNumeric c = true :=
        fun _ _ => isNumeric_of_mem_exponent
      cases rest with
      | nil => exact List.forall_mem_cons.mpr ⟨hd, hexponent _⟩
      | cons d' rest =>
        simp only [List.forall_mem_append, List.forall_mem_cons, List.cons_append] at hrest ⊢
        exact ⟨hd, hpoint, hrest.1, hrest.2, hexponent _⟩

/-- A number is written with its own characters, or it is not finite and written as `null`. -/
theorem isNumeric_of_mem_chars (n : Number) :
    n.chars = "null".toList ∨ ∀ c ∈ n.chars, isNumeric c = true := by
  have hminus : isNumeric '-' = true := by decide
  have hsign : ∀ negative : Prop, [Decidable negative] →
      ∀ c ∈ if negative then ['-'] else [], isNumeric c = true := by
    intro negative _ c hc
    split at hc
    · rw [List.mem_singleton.mp hc]
      exact hminus
    · cases hc
  cases n with
  | int i =>
    refine .inr ?_
    rw [Number.chars, List.forall_mem_append]
    exact ⟨hsign _, fun _ => isNumeric_of_mem_digits⟩
  | float x =>
    rw [Number.chars]
    split
    · refine .inr ?_
      rw [Layout.write]
      dsimp only
      rw [List.forall_mem_append]
      refine ⟨hsign _, ?_⟩
      split
      · have hzero : ['0', '.', '0'].all isNumeric = true := by decide
        exact List.all_eq_true.mp hzero
      · exact isNumeric_of_mem_writeDigits fun _ => isNumeric_of_mem_digits
    · exact .inl rfl

/-- Lower case leaves the characters of numbers and literals alone. -/
theorem foldCase_eq_self {cs : List Char} (h : ∀ c ∈ cs, foldChar c = [c]) : foldCase cs = cs := by
  induction cs with
  | nil => rfl
  | cons c cs ih =>
    obtain ⟨hc, hcs⟩ := List.forall_mem_cons.mp h
    have hsplit : foldCase (c :: cs) = foldChar c ++ foldCase cs := List.flatMap_cons
    rw [hsplit, hc, ih hcs]
    rfl

/-! ### Occurrences -/

/-- `InString word ts l r`: what stands between `l` and `r` in the lower case of the printed tokens
    `ts` is the word, and it stands there inside the escaped form of one string. -/
inductive InString (word : List Char) : List Token → List Char → List Char → Prop where
  | intro {before after : List Token} {s : String} {x y : List Char} :
      foldCase (escape s.toList) = x ++ word ++ y →
      InString word (before ++ .str s :: after)
        (foldCase (printed before) ++ '"' :: x) (y ++ '"' :: foldCase (printed after))

/-- All occurrences of the word in the lower case of the printed tokens lie inside strings. -/
def Confined (word : List Char) (ts : List Token) : Prop :=
  ∀ l r, foldCase (printed ts) = l ++ word ++ r → InString word ts l r

section

variable {word l r : List Char} {ts us : List Token}

/-- More tokens in front. -/
theorem InString.prepend (h : InString word ts l r) (us : List Token) :
    InString word (us ++ ts) (foldCase (printed us) ++ l) r := by
  obtain @⟨before, after, s, x, y, hs⟩ := h
  have hin := @InString.intro word (us ++ before) after s x y hs
  rwa [printed_append, foldCase_append, List.append_assoc, List.append_assoc] at hin

/-- More tokens behind. -/
theorem InString.append (h : InString word ts l r) (us : List Token) :
    InString word (ts ++ us) l (r ++ foldCase (printed us)) := by
  obtain @⟨before, after, s, x, y, hs⟩ := h
  have hin := @InString.intro word before (after ++ us) s x y hs
  rw [printed_append, foldCase_append] at hin
  simpa using hin

/-- An occurrence lies on one side of a character that the word does not hold. -/
theorem occurrence_append_cons {as bs : List Char} {c : Char} (hc : c ∉ word)
    (h : as ++ c :: bs = l ++ word ++ r) :
    (∃ r', as = l ++ word ++ r' ∧ r = r' ++ c :: bs) ∨
      ∃ l', l = as ++ c :: l' ∧ bs = l' ++ word ++ r := by
  rcases List.append_eq_append_iff.mp h with ⟨back, hback, hbs⟩ | ⟨back, has, hr⟩
  · -- the character stands before the end of the word, so before its start
    cases back with
    | nil => exact .inl ⟨[], by simpa using hback.symm, by simpa using hbs.symm⟩
    | cons d back =>
      obtain ⟨rfl, rfl⟩ := List.cons.inj hbs
      rcases List.append_eq_append_iff.mp hback with ⟨front, hfront, hword⟩ | ⟨front, hl, hword⟩
      · exact absurd (by simp [hword]) hc
      · cases front with
        | nil =>
          rw [List.nil_append] at hword
          exact absurd (hword ▸ List.mem_cons_self) hc
        | cons d front =>
          obtain ⟨rfl, rfl⟩ := List.cons.inj hword
          exact .inr ⟨front, hl, rfl⟩
  · exact .inl ⟨back, has, hr⟩

namespace Confined

theorem nil (hword : word ≠ []) : Confined word [] := by
  intro l r h
  have hnil : word = [] := by
    have := (List.nil_eq_append_iff.mp h).1
    exact (List.append_eq_nil_iff.mp this).2
  exact absurd hnil hword

/-- A token that does not hold the word holds no occurrence. -/
theorem silent {t : Token} (ht : ¬ word <:+: foldCase t.chars) : Confined word [t] := by
  intro l r h
  rw [printed_cons, printed_nil, List.append_nil] at h
  exact absurd ⟨l, r, h.symm⟩ ht

/-- No occurrence reaches across a mark. -/
theorem mark {t : Token} {c : Char} (ht : t.chars = [c]) (hfold : foldChar c = [c])
    (hc : c ∉ word) (hts : Confined word ts) (hus : Confined word us) :
    Confined word (ts ++ t :: us) := by
  intro l r h
  have hmark : foldCase t.chars = [c] := by
    rw [ht, foldCase_eq_self (by simpa using hfold)]
  rw [printed_append, printed_cons, foldCase_append, foldCase_append, hmark] at h
  rcases occurrence_append_cons hc h with ⟨r', has, rfl⟩ | ⟨l', rfl, hbs⟩
  · have hin := (hts l r' has).append (t :: us)
    rwa [printed_cons, foldCase_append, hmark] at hin
  · have hin := (hus l' r hbs).prepend (ts ++ [t])
    simpa [foldCase_append, hmark] using hin

/-- No occurrence reaches across the quotes of a string. -/
theorem string (hquote : '"' ∉ word) (s : String) (hts : Confined word ts)
    (hus : Confined word us) : Confined word (ts ++ .str s :: us) := by
  intro l r h
  have hquoted : ∀ cs, foldCase (printed (.str s :: us)) ++ cs =
      '"' :: (foldCase (escape s.toList) ++ '"' :: (foldCase (printed us) ++ cs)) := by
    intro cs
    simp [Token.chars, quoted, foldCase, foldChar]
  have hsplit := hquoted []
  simp only [List.append_nil] at hsplit
  rw [printed_append, foldCase_append, hsplit] at h
  rcases occurrence_append_cons hquote h with ⟨r', has, rfl⟩ | ⟨l', rfl, hbs⟩
  · rw [← hsplit]
    exact (hts l r' has).append _
  · rcases occurrence_append_cons hquote hbs with ⟨r', hs, rfl⟩ | ⟨l'', rfl, hus'⟩
    · exact .intro hs
    · have hin := (hus l'' r hus').prepend (ts ++ [.str s])
      simpa [Token.chars, quoted, foldCase, foldChar] using hin

end Confined

end

/-! ### Compact texts -/

section

variable {word : List Char} (hword : Searchable word)

include hword

theorem confined_literal {t : Token} (literal : String) (ht : t.chars = literal.toList)
    (hliteral : literal ∈ ["null", "true", "false"]) : Confined word [t] := by
  have hlower : ∀ literal ∈ ["null", "true", "false"],
      foldCase literal.toList = literal.toList := by decide +kernel
  refine .silent ?_
  rw [ht, hlower literal hliteral]
  exact hword.not_literal literal hliteral

theorem confined_number (n : Number) : Confined word [.num n] := by
  have hnumeric : ∀ c, isNumeric c = true → foldChar c = [c] ∧ (c.isLower = true → c = 'e') := by
    intro c hc
    rw [isNumeric, Bool.or_eq_true, List.contains_iff_mem] at hc
    rcases hc with hdigit | hsign
    · rw [Char.isDigit, Bool.and_eq_true, decide_eq_true_eq, decide_eq_true_eq] at hdigit
      have hlt : c.toNat < 'A'.toNat := Nat.lt_of_le_of_lt hdigit.2 (by decide)
      refine ⟨foldChar_of_lt hlt, fun hlower => ?_⟩
      exact absurd (Nat.lt_of_le_of_lt (toNat_of_isLower hlower).1 hlt) (by decide)
    · simp only [List.mem_cons, List.not_mem_nil, or_false] at hsign
      rcases hsign with rfl | rfl | rfl | rfl <;> exact ⟨by decide, by decide⟩
  rcases isNumeric_of_mem_chars n with hnull | hn
  · exact confined_literal hword "null" hnull (by decide)
  · refine .silent fun hin => ?_
    rw [Token.chars, foldCase_eq_self fun c hc => (hnumeric c (hn c hc)).1] at hin
    -- the word would consist of exponent marks
    obtain ⟨c, hc, hne⟩ := hword.not_exponent
    exact hne ((hnumeric c (hn c (hin.subset hc))).2 (hword.letters c hc))

/-- No occurrence reaches across a bracket, a brace, a comma or a colon. -/
theorem Confined.punctuation {t : Token} {ts us : List Token}
    (ht : t ∈ [Token.openBracket, .closeBracket, .openBrace, .closeBrace, .comma, .colon])
    (hts : Confined word ts) (hus : Confined word us) : Confined word (ts ++ t :: us) := by
  have hmark : ∀ t ∈ [Token.openBracket, .closeBracket, .openBrace, .closeBrace, .comma, .colon],
      ∃ c, t.chars = [c] ∧ foldChar c = [c] ∧ c.isLower = false := by
    simp only [List.forall_mem_cons, List.not_mem_nil, false_imp_iff, implies_true, and_true]
    exact ⟨⟨'[', by decide⟩, ⟨']', by decide⟩, ⟨'\x7b', by decide⟩, ⟨'\x7d', by decide⟩,
      ⟨',', by decide⟩, ⟨':', by decide⟩⟩
  obtain ⟨c, hchars, hfold, hlower⟩ := hmark t ht
  exact .mark hchars hfold (hword.notMem hlower) hts hus

/-- A key, its colon and what follows it. -/
theorem Confined.member (k : String) {ts us : List Token} (hts : Confined word ts)
    (hus : Confined word us) : Confined word (ts ++ .str k :: .colon :: us) :=
  .string (hword.notMem (by decide)) k hts
    (.punctuation hword (by decide) (.nil hword.ne_nil) hus)

mutual

/-- **All occurrences lie inside keys and strings.** -/
theorem confined_tokens : ∀ v : Json, Confined word v.tokens
  | .null => confined_literal hword "null" rfl (by decide)
  | .bool true => confined_literal hword "true" rfl (by decide)
  | .bool false => confined_literal hword "false" rfl (by decide)
  | .num n => confined_number hword n
  | .str s =>
    .string (hword.notMem (by decide)) s (.nil hword.ne_nil) (.nil hword.ne_nil)
  | .arr [] =>
    .punctuation hword (by decide) (.nil hword.ne_nil)
      (.punctuation hword (by decide) (.nil hword.ne_nil) (.nil hword.ne_nil))
  | .arr (v :: vs) =>
    .punctuation hword (by decide) (.nil hword.ne_nil)
      (confined_tokensOfItems vs (confined_tokens v))
  | .obj [] =>
    .punctuation hword (by decide) (.nil hword.ne_nil)
      (.punctuation hword (by decide) (.nil hword.ne_nil) (.nil hword.ne_nil))
  | .obj ((k, v) :: ms) =>
    .punctuation hword (by decide) (.nil hword.ne_nil)
      (.member hword k (.nil hword.ne_nil) (confined_tokensOfMembers ms (confined_tokens v)))

theorem confined_tokensOfItems :
    ∀ (vs : List Json) {ts : List Token}, Confined word ts → Confined word (ts ++ tokensOfItems vs)
  | [], _, hts => .punctuation hword (by decide) hts (.nil hword.ne_nil)
  | v :: vs, _, hts =>
    .punctuation hword (by decide) hts (confined_tokensOfItems vs (confined_tokens v))

theorem confined_tokensOfMembers :
    ∀ (ms : List (String × Json)) {ts : List Token}, Confined word ts →
      Confined word (ts ++ tokensOfMembers ms)
  | [], _, hts => .punctuation hword (by decide) hts (.nil hword.ne_nil)
  | (k, v) :: ms, _, hts =>
    .punctuation hword (by decide) hts
      (.member hword k (.nil hword.ne_nil) (confined_tokensOfMembers ms (confined_tokens v)))

end

end

/-- A mention in the compact text is a mention in the escaped form of a key or string. -/
theorem exists_mentions_escape {word : String} (hword : Searchable word.toList) {v : Json}
    (h : mentions v.chars word = true) :
    ∃ s ∈ v.texts, mentions (escape s.toList) word = true := by
  rw [mentions, occurs_iff] at h
  obtain ⟨l, r, hlr⟩ := h
  have hin : InString word.toList v.tokens l r :=
    confined_tokens hword v l r (by rw [printed_tokens, hlr])
  generalize hts : v.tokens = ts at hin
  obtain @⟨before, after, s, x, y, hs⟩ := hin
  have hmem : .str s ∈ v.tokens := by simp [hts]
  refine ⟨s, (str_mem_tokens_iff v).mp hmem, ?_⟩
  rw [mentions, occurs_iff]
  exact ⟨x, y, hs.symm⟩

/-- What the escaped form of a key or string mentions, the compact text mentions. -/
theorem mentions_chars_of_escape {v : Json} {s word : String} (hs : s ∈ v.texts)
    (h : mentions (escape s.toList) word = true) : mentions v.chars word = true := by
  have hquoted : escape s.toList <:+: quoted s := ⟨['"'], ['"'], by simp [quoted]⟩
  exact mentions_of_infix (hquoted.trans (quoted_infix_chars v hs)) h

/-- **A search in a compact text searches its strings.** The compact text of a value mentions a word
    of the rules exactly if the escaped form of some key or string in it does.  Every occurrence of
    the word in the lower case of the text lies inside one string token, and what a key or string
    mentions itself is found.  It does not matter which lower case is searched. -/
theorem mentions_chars_iff {word : String}
    (hword : word ∈ Rule.RateLimiting.keyword :: Rule.DataExposure.keywords) (v : Json) :
    (mentions v.chars word = true ↔
        ∃ s ∈ v.texts, mentions (escape s.toList) word = true) ∧
      (printed v.tokens = v.chars ∧
        ∀ l r, foldCase v.chars = l ++ word.toList ++ r → InString word.toList v.tokens l r) ∧
      (∀ s ∈ v.texts, mentions s.toList word = true → mentions v.chars word = true) ∧
      ∀ cs, Lowers cs (foldCase cs) ∧
        ∀ lower, Lowers cs lower → (mentions cs word = true ↔ word.toList <:+: lower) := by
  have hsearchable : Searchable word.toList := searchable_of_mem hword
  refine ⟨⟨exists_mentions_escape hsearchable, ?_⟩, ⟨printed_tokens v, ?_⟩, ?_, ?_⟩
  · rintro ⟨s, hs, hm⟩
    exact mentions_chars_of_escape hs hm
  · intro l r h
    exact confined_tokens hsearchable v l r (by rw [printed_tokens, h])
  · intro s hs hm
    exact mentions_chars_of_mem hs hsearchable.unescaped hm
  · intro cs
    exact ⟨lowers_foldCase cs, fun _ h => mentions_iff_of_lowers hsearchable h⟩

/-- A key with a Kelvin sign in it, and a string whose escape spells a word together with what
    follows it. -/
def spelledValue : Json := .obj [
  ("API_\u212aey", .arr [.null, .bool true, .num (.int 5)]),
  ("note", .str "\token")]

theorem mentions_chars_spelledValue :
    ("key" ∈ Rule.RateLimiting.keyword :: Rule.DataExposure.keywords ∧
        "token" ∈ Rule.RateLimiting.keyword :: Rule.DataExposure.keywords) ∧
      mentions spelledValue.chars "key" = true ∧ mentions spelledValue.chars "token" = true ∧
        mentions "\token".toList "token" = false := by
  have hkey : "key" ∈ Rule.RateLimiting.keyword :: Rule.DataExposure.keywords := by decide
  have htoken : "token" ∈ Rule.RateLimiting.keyword :: Rule.DataExposure.keywords := by decide
  refine ⟨⟨hkey, htoken⟩, ?_, ?_, by decide +kernel⟩
  · exact (mentions_chars_iff hkey spelledValue).2.2.1 "API_\u212aey" (by decide)
      (by decide +kernel)
  · exact (mentions_chars_iff htoken spelledValue).1.mpr ⟨"\token", by decide, by decide +kernel⟩

end Json

end SecurityScan
