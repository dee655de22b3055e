import SecurityScan.Json.Printer
import SecurityScan.Json.Reader
import SecurityScan.Proofs.Numeral
import Mathlib.Data.Fintype.Basic
import Mathlib.Tactic.FinCases

namespace SecurityScan

open Decimal

/-!
# Compact texts read back

The printer and the reader are inverse to each other: the compact text of a value whose numbers are
integers of at most 64 bits, and whose nesting the reader allows, is the text of that value and of
no other.

* `Number.Fits` and `Json.numbers` — integers that text can give, and the numbers in a value;
* `Json.readString_escape` and `Json.readNumber_chars` — a string and a number are read back, with
  whatever follows them left;
* `Json.tokens` and `Json.scans_chars` — the scanner finds in a compact text the value's tokens;
* `Json.run_tokens` — the machine makes the value of them, whatever is open around it;
* `Json.parse?_compact` — so the compact text is read back as the value.
-/

/-- The number is an integer. -/
def Number.isInt : Number → Bool
  | .int _ => true
  | .float _ => false

/-- An integer lies in the range of the 64-bit words, signed or not; a double always fits. -/
def Number.Fits : Number → Prop
  | .int i => -(Int.pow 2 63) ≤ i ∧ i < Int.pow 2 64
  | .float _ => True

theorem Number.fits_int_iff {i : Int} :
    (Number.int i).Fits ↔ -9223372036854775808 ≤ i ∧ i < 18446744073709551616 := Iff.rfl

namespace Json

/-! ### The numbers in a value -/

mutual

/-- The numbers anywhere in a value, in the order of the text. -/
def numbers : Json → List Number
  | .num n => [n]
  | .arr vs => numbersOfItems vs
  | .obj ms => numbersOfMembers ms
  | _ => []

/-- The numbers in the items. -/
def numbersOfItems : List Json → List Number
  | [] => []
  | v :: vs => numbers v ++ numbersOfItems vs

/-- The numbers in the members' values. -/
def numbersOfMembers : List (String × Json) → List Number
  | [] => []
  | (_, v) :: ms => numbers v ++ numbersOfMembers ms

end

theorem mem_numbersOfItems {vs : List Json} {n : Number} :
    n ∈ numbersOfItems vs ↔ ∃ v ∈ vs, n ∈ v.numbers := by
  induction vs with
  | nil => simp [numbersOfItems]
  | cons v vs ih => simp [numbersOfItems, ih]

theorem mem_numbersOfMembers {ms : Members} {n : Number} :
    n ∈ numbersOfMembers ms ↔ ∃ p ∈ ms, n ∈ p.2.numbers := by
  induction ms with
  | nil => simp [numbersOfMembers]
  | cons p ms ih => simp [numbersOfMembers, ih]

/-! ### Strings -/

/-- An escaped character is read back, whatever follows it. -/
theorem readChar_escapeChar (c : Char) (rest : List Char) :
    readChar (escapeChar c ++ rest) = some (c, rest) := by
  by_cases hcontrol : c.toNat < 0x20
  · -- the control characters are few
    have hall : ∀ n : Fin 0x20, ∀ rest, readChar (escapeChar (Char.ofNat n) ++ rest) =
        some (Char.ofNat n, rest) := by
      intro n rest
      fin_cases n <;> rfl
    have h := hall ⟨c.toNat, hcontrol⟩ rest
    rwa [Char.ofNat_toNat] at h
  · by_cases hquote : c = '"'
    · subst hquote; rfl
    by_cases hbackslash : c = '\\'
    · subst hbackslash; rfl
    -- any other character stands for itself
    have hself : escapeChar c = [c] := by
      have hne : ∀ d : Char, d.toNat < 0x20 → c ≠ d := by
        rintro d hd rfl
        exact hcontrol hd
      rw [escapeChar, if_neg hquote, if_neg hbackslash, if_neg (hne _ (by decide)),
        if_neg (hne _ (by decide)), if_neg (hne _ (by decide)), if_neg (hne _ (by decide)),
        if_neg (hne _ (by decide)), if_neg hcontrol]
    rw [hself, List.singleton_append]
    simp [readChar, hbackslash, hcontrol]

/-- A string is read character by character. -/
theorem readString_of_readChar {cs rest : List Char} {c : Char} (h : readChar cs = some (c, rest)) :
    readString cs = (readString rest).map fun p => (c :: p.1, p.2) := by
  rw [readString.eq_def]
  split
  · simp [readChar] at h
  · split
    · next hnone => rw [hnone] at h; cases h
    · next hsome =>
      rw [h] at hsome
      cases hsome
      rfl

/-- Escaped characters are read back up to the quote behind them. -/
theorem readString_escape (cs rest : List Char) :
    readString (escape cs ++ '"' :: rest) = some (cs, rest) := by
  induction cs with
  | nil => rw [escape, List.flatMap_nil, List.nil_append, readString]
  | cons c cs ih =>
    have hcons : escape (c :: cs) = escapeChar c ++ escape cs := List.flatMap_cons
    rw [hcons, List.append_assoc, readString_of_readChar (readChar_escapeChar c _), ih]
    rfl

/-! ### Numbers -/

/-- The text cannot go on a number literal that stands in front of it. -/
def EndsNumber (rest : List Char) : Prop :=
  ∀ c ∈ rest.head?, c.isDigit = false ∧ c ≠ '.' ∧ c ≠ 'e' ∧ c ≠ 'E'

theorem endsNumber_nil : EndsNumber [] := by
  simp [EndsNumber]

theorem takeDigits_append {ds rest : List Char} (hds : ∀ d ∈ ds, d.isDigit = true)
    (hrest : EndsNumber rest) : takeDigits (ds ++ rest) = (ds, rest) := by
  have htake : rest.takeWhile Char.isDigit = [] ∧ rest.dropWhile Char.isDigit = rest := by
    cases rest with
    | nil => exact ⟨rfl, rfl⟩
    | cons c rest =>
      have hc := (hrest c rfl).1
      simp [hc]
  rw [takeDigits, List.takeWhile_append_of_pos hds, List.dropWhile_append_of_pos hds, htake.1,
    htake.2, List.append_nil]

theorem isDigit_of_mem_digits {n : Nat} {d : Char} (h : d ∈ digits n) : d.isDigit = true :=
  (isNumeral_toDigits n).2.1 d h

/-- The digits of a number are the integer part of a literal. -/
theorem readWhole_digits (n : Nat) {rest : List Char} (hrest : EndsNumber rest) :
    readWhole (digits n ++ rest) = some (digits n, rest) := by
  obtain ⟨d, ds, hds⟩ := List.exists_cons_of_ne_nil (isNumeral_toDigits n).1
  have htake := takeDigits_append (fun _ => isDigit_of_mem_digits (n := n)) hrest
  rw [show digits n = d :: ds from hds] at htake ⊢
  by_cases hd : d = '0'
  · -- a numeral that starts with a zero is that zero
    subst hd
    have hnil : ds = [] := by
      rcases (isNumeral_toDigits n).2.2 with hlength | hhead
      · simpa [hds] using hlength
      · simp [hds] at hhead
    rw [hnil]
    rfl
  · unfold readWhole
    split
    · next heq =>
      rw [List.cons_append, List.cons.injEq] at heq
      exact absurd heq.1 hd
    · rw [htake]

theorem readFraction_of_endsNumber {rest : List Char} (h : EndsNumber rest) :
    readFraction rest = some (none, rest) := by
  unfold readFraction
  split
  · exact absurd rfl (h _ rfl).2.1
  · rfl

theorem readExponent_of_endsNumber {rest : List Char} (h : EndsNumber rest) :
    readExponent rest = some (none, rest) := by
  unfold readExponent
  split
  · exact absurd rfl (h _ rfl).2.2.1
  · exact absurd rfl (h _ rfl).2.2.2
  · rfl

theorem readMagnitude_digits (negative : Bool) (n : Nat) {rest : List Char}
    (hrest : EndsNumber rest) :
    readMagnitude negative (digits n ++ rest) = some (⟨negative, digits n, none, none⟩, rest) := by
  simp [readMagnitude, readWhole_digits n hrest, readFraction_of_endsNumber hrest,
    readExponent_of_endsNumber hrest]

/-- **Numbers.** The characters of an integer that fits are read back as the integer. -/
theorem readNumber_chars {i : Int} (hi : (Number.int i).Fits) {rest : List Char}
    (hrest : EndsNumber rest) :
    readNumber ((Number.int i).chars ++ rest) = some (.int i, rest) := by
  obtain ⟨hlow, hhigh⟩ := Number.fits_int_iff.mp hi
  have hvalue : value (digits i.natAbs) = i.natAbs := value_toDigits _
  by_cases hneg : i < 0
  · have hliteral : readLiteral ((Number.int i).chars ++ rest) =
        some (⟨true, digits i.natAbs, none, none⟩, rest) := by
      rw [Number.chars, if_pos hneg]
      exact readMagnitude_digits true _ hrest
    have hzero : i.natAbs ≠ 0 := by omega
    have hbound : i.natAbs ≤ Nat.pow 2 63 := by
      show i.natAbs ≤ 9223372036854775808
      omega
    have hback : -(i.natAbs : Int) = i := by omega
    have hnumber : Literal.number? ⟨true, digits i.natAbs, none, none⟩ = some (.int i) := by
      simp only [Literal.number?, hvalue, if_true, if_neg hzero, if_pos hbound, hback]
    rw [readNumber, hliteral]
    show (Literal.number? ⟨true, digits i.natAbs, none, none⟩).bind _ = _
    rw [hnumber]
    rfl
  · have hliteral : readLiteral ((Number.int i).chars ++ rest) =
        some (⟨false, digits i.natAbs, none, none⟩, rest) := by
      rw [Number.chars, if_neg hneg, List.nil_append]
      obtain ⟨d, ds, hds⟩ := List.exists_cons_of_ne_nil (isNumeral_toDigits i.natAbs).1
      have hd : d.isDigit = true := (isNumeral_toDigits i.natAbs).2.1 d (by rw [hds]; simp)
      have hread := readMagnitude_digits false i.natAbs hrest
      rw [show digits i.natAbs = d :: ds from hds] at hread ⊢
      unfold readLiteral
      split
      · next heq =>
        rw [List.cons_append, List.cons.injEq] at heq
        rw [heq.1] at hd
        exact absurd hd (by decide)
      · exact hread
    have hbound : i.natAbs < Nat.pow 2 64 := by
      show i.natAbs < 18446744073709551616
      omega
    have hback : (i.natAbs : Int) = i := by omega
    have hnumber : Literal.number? ⟨false, digits i.natAbs, none, none⟩ = some (.int i) := by
      simp only [Literal.number?, hvalue, Bool.false_eq_true, if_false, if_pos hbound, hback]
    rw [readNumber, hliteral]
    show (Literal.number? ⟨false, digits i.natAbs, none, none⟩).bind _ = _
    rw [hnumber]
    rfl

/-! ### Tokens -/

mutual

/-- The tokens of a value, without the text. -/
def tokens : Json → List Token
  | .null => [.null]
  | .bool b => [.bool b]
  | .num n => [.num n]
  | .str s => [.str s]
  | .arr [] => [.openBracket, .closeBracket]
  | .arr (v :: vs) => .openBracket :: (tokens v ++ tokensOfItems vs)
  | .obj [] => [.openBrace, .closeBrace]
  | .obj ((k, v) :: ms) => .openBrace :: .str k :: .colon :: (tokens v ++ tokensOfMembers ms)

/-- The items after the first one, each after its comma, and the closing bracket. -/
def tokensOfItems : List Json → List Token
  | [] => [.closeBracket]
  | v :: vs => .comma :: (tokens v ++ tokensOfItems vs)

/-- The members after the first one, each after its comma, and the closing brace. -/
def tokensOfMembers : List (String × Json) → List Token
  | [] => [.closeBrace]
  | (k, v) :: ms => .comma :: .str k :: .colon :: (tokens v ++ tokensOfMembers ms)

end

/-- The scanner takes some tokens off the head of a text and goes on with the rest. -/
def Scans (cs : List Char) (ts : List Token) (rest : List Char) : Prop :=
  Token.scan cs = (ts ++ (Token.scan rest).1, (Token.scan rest).2)

namespace Scans

variable {as bs cs rest : List Char} {t : Token} {ts us : List Token}

/-- What is scanned up to some place and from there on is scanned as a whole. -/
theorem trans (h : Scans as ts bs) (h' : Scans bs us cs) : Scans as (ts ++ us) cs := by
  rw [Scans] at *
  rw [h, h', List.append_assoc]

/-- The scanner takes the token at the head of a text that does not start with a blank. -/
theorem of_next? {c : Char} (hc : isSpace c = false) (h : Token.next? (c :: cs) = some (t, rest)) :
    Scans (c :: cs) [t] rest := by
  rw [Scans, Token.scan.eq_def]
  simp only [hc, Bool.false_eq_true, if_false]
  split
  · next hnone => rw [h] at hnone; cases hnone
  · next hsome =>
    rw [h] at hsome
    cases hsome
    rfl

/-- One more token in front. -/
theorem cons {c : Char} (hc : isSpace c = false) (h : Token.next? (c :: as) = some (t, bs))
    (h' : Scans bs ts cs) : Scans (c :: as) (t :: ts) cs :=
  (of_next? hc h).trans h'

end Scans

theorem scans_quoted (s : String) (rest : List Char) : Scans (quoted s ++ rest) [.str s] rest := by
  have hnext : Token.next? ('"' :: (escape s.toList ++ '"' :: rest)) = some (.str s, rest) := by
    rw [Token.next?, readString_escape, Option.map_some, String.ofList_toList]
  have hquoted : quoted s ++ rest = '"' :: (escape s.toList ++ '"' :: rest) := by simp [quoted]
  rw [hquoted]
  exact .of_next? (by decide) hnext

/-- Only a sign or a digit starts the characters of an integer. -/
theorem exists_cons_of_chars (i : Int) :
    ∃ c cs, (Number.int i).chars = c :: cs ∧ (c = '-' ∨ c.isDigit = true) := by
  by_cases hneg : i < 0
  · exact ⟨'-', digits i.natAbs, by rw [Number.chars, if_pos hneg]; rfl, .inl rfl⟩
  · obtain ⟨d, ds, hds⟩ := List.exists_cons_of_ne_nil (isNumeral_toDigits i.natAbs).1
    refine ⟨d, ds, by rw [Number.chars, if_neg hneg]; exact hds, .inr ?_⟩
    exact (isNumeral_toDigits i.natAbs).2.1 d (by rw [hds]; exact List.mem_cons_self)

theorem scans_number {i : Int} (hi : (Number.int i).Fits) {rest : List Char}
    (hrest : EndsNumber rest) : Scans ((Number.int i).chars ++ rest) [.num (.int i)] rest := by
  have hread := readNumber_chars hi hrest
  obtain ⟨c, cs, hcs, hc⟩ := exists_cons_of_chars i
  rw [hcs, List.cons_append] at hread ⊢
  have hne : ∀ d : Char, d.isDigit = false → d ≠ '-' → c ≠ d := by
    rintro d hd hsign rfl
    rcases hc with rfl | hc
    · exact hsign rfl
    · rw [hc] at hd; cases hd
  have hblank : isSpace c = false := by
    simp [isSpace, hne ' ' (by decide) (by decide), hne '\t' (by decide) (by decide),
      hne '\n' (by decide) (by decide), hne '\r' (by decide) (by decide)]
  refine .of_next? hblank ?_
  have hnext : Token.next? (c :: (cs ++ rest)) =
      (readNumber (c :: (cs ++ rest))).map fun p => (.num p.1, p.2) := by
    unfold Token.next?
    split
    case h_12 => rfl
    case h_1 heq => cases heq
    all_goals
      next heq =>
      rw [List.cons.injEq] at heq
      exact absurd heq.1 (hne _ (by decide) (by decide))
  rw [hnext, hread]
  rfl

/-- Every number in the value is an integer that text can give. -/
def Integral (v : Json) : Prop := ∀ n ∈ v.numbers, n.isInt = true ∧ n.Fits

theorem integral_arr_iff {vs : List Json} : (arr vs).Integral ↔ ∀ v ∈ vs, v.Integral := by
  simp only [Integral, numbers, mem_numbersOfItems]
  exact ⟨fun h v hv n hn => h n ⟨v, hv, hn⟩, fun h n ⟨v, hv, hn⟩ => h v hv n hn⟩

theorem integral_obj_iff {ms : Members} : (obj ms).Integral ↔ ∀ p ∈ ms, p.2.Integral := by
  simp only [Integral, numbers, mem_numbersOfMembers]
  exact ⟨fun h p hp n hn => h n ⟨p, hp, hn⟩, fun h n ⟨p, hp, hn⟩ => h p hp n hn⟩

theorem endsNumber_charsItems (vs : List Json) (rest : List Char) :
    EndsNumber (charsItems vs ++ rest) := by
  cases vs with
  | nil => simp [charsItems, EndsNumber]
  | cons v vs => simp [charsItems, EndsNumber]

theorem endsNumber_charsMembers (ms : Members) (rest : List Char) :
    EndsNumber (charsMembers ms ++ rest) := by
  cases ms with
  | nil => simp [charsMembers, EndsNumber]
  | cons p ms => simp [charsMembers, EndsNumber]

/-- A key and its colon. -/
theorem scans_key (k : String) {cs rest : List Char} {ts : List Token} (h : Scans cs ts rest) :
    Scans (quoted k ++ ':' :: cs) (.str k :: .colon :: ts) rest :=
  (scans_quoted k _).trans (.cons (by decide) rfl h)

mutual

/-- **Scanning.** The tokens in the compact text of a value are the value's. -/
theorem scans_chars {rest : List Char} :
    ∀ v : Json, v.Integral → EndsNumber rest → Scans (v.chars ++ rest) v.tokens rest
  | .null, _, _ => .of_next? (by decide) rfl
  | .bool true, _, _ => .of_next? (by decide) rfl
  | .bool false, _, _ => .of_next? (by decide) rfl
  | .num (.int i), hv, hrest => scans_number (hv (.int i) (by simp [numbers])).2 hrest
  | .num (.float x), hv, _ => absurd (hv (.float x) (by simp [numbers])).1 (by simp [Number.isInt])
  | .str s, _, _ => scans_quoted s rest
  | .arr [], _, _ => .cons (by decide) rfl (.of_next? (by decide) rfl)
  | .arr (v :: vs), hv, _ => by
    obtain ⟨hv, hvs⟩ := List.forall_mem_cons.mp (integral_arr_iff.mp hv)
    have hfirst := scans_chars v hv (endsNumber_charsItems vs rest)
    have hmore : Scans (charsItems vs ++ rest) (tokensOfItems vs) rest := scans_charsItems vs hvs
    rw [chars, tokens, List.append_assoc, List.cons_append]
    exact .cons (by decide) rfl (hfirst.trans hmore)
  | .obj [], _, _ => .cons (by decide) rfl (.of_next? (by decide) rfl)
  | .obj ((k, v) :: ms), hv, _ => by
    obtain ⟨hv, hms⟩ := List.forall_mem_cons.mp (integral_obj_iff.mp hv)
    have hfirst := scans_chars v hv (endsNumber_charsMembers ms rest)
    have hmore : Scans (charsMembers ms ++ rest) (tokensOfMembers ms) rest :=
      scans_charsMembers ms hms
    rw [chars, tokens]
    simp only [List.cons_append, List.append_assoc]
    exact .cons (by decide) rfl (scans_key k (hfirst.trans hmore))

theorem scans_charsItems {rest : List Char} :
    ∀ vs : List Json, (∀ v ∈ vs, v.Integral) → Scans (charsItems vs ++ rest) (tokensOfItems vs) rest
  | [], _ => .of_next? (by decide) rfl
  | v :: vs, hvs => by
    obtain ⟨hv, hvs⟩ := List.forall_mem_cons.mp hvs
    have hfirst := scans_chars v hv (endsNumber_charsItems vs rest)
    have hmore : Scans (charsItems vs ++ rest) (tokensOfItems vs) rest := scans_charsItems vs hvs
    rw [charsItems, tokensOfItems, List.append_assoc, List.cons_append]
    exact .cons (by decide) rfl (hfirst.trans hmore)

theorem scans_charsMembers {rest : List Char} :
    ∀ ms : List (String × Json), (∀ p ∈ ms, p.2.Integral) →
      Scans (charsMembers ms ++ rest) (tokensOfMembers ms) rest
  | [], _ => .of_next? (by decide) rfl
  | (k, v) :: ms, hms => by
    obtain ⟨hv, hms⟩ := List.forall_mem_cons.mp hms
    have hfirst := scans_chars v hv (endsNumber_charsMembers ms rest)
    have hmore : Scans (charsMembers ms ++ rest) (tokensOfMembers ms) rest :=
      scans_charsMembers ms hms
    rw [charsMembers, tokensOfMembers]
    simp only [List.cons_append, List.append_assoc]
    exact .cons (by decide) rfl (scans_key k (hfirst.trans hmore))

end

/-- The compact text of a value is scanned whole. -/
theorem scan_chars {v : Json} (hv : v.Integral) : Token.scan v.chars = (v.tokens, true) := by
  have h := scans_chars v hv endsNumber_nil
  rw [List.append_nil, Scans, Token.scan] at h
  rwa [List.append_nil] at h

/-! ### The machine -/

theorem start_openBracket {frames : List Frame} (h : frames.length < maxOpen) :
    Progress.start frames .openBracket = some (.firstItem frames) :=
  if_pos h

theorem start_openBrace {frames : List Frame} (h : frames.length < maxOpen) :
    Progress.start frames .openBrace = some (.firstKey frames) :=
  if_pos h

/-- A token that can start a value starts the first item of an array. -/
theorem run_firstItem (frames : List Frame) {t : Token} {p : Progress} (ht : t ≠ .closeBracket)
    (h : Progress.start (.array [] :: frames) t = some p) (ts : List Token) :
    (Progress.firstItem frames).run (t :: ts) =
      (Progress.value (.array [] :: frames)).run (t :: ts) := by
  have hfirst : (Progress.firstItem frames).step t = some p := by
    cases t with
    | closeBracket => exact absurd rfl ht
    | _ => exact h
  rw [Progress.run, Progress.run, hfirst, Progress.step, h]

/-- Where a first item may stand, the tokens of a value are read as those of that item. -/
theorem run_firstItem_tokens (frames : List Frame) (ts : List Token) (v : Json)
    (h : frames.length + 1 + v.depth ≤ maxOpen) :
    (Progress.firstItem frames).run (v.tokens ++ ts) =
      (Progress.value (.array [] :: frames)).run (v.tokens ++ ts) := by
  cases v with
  | null | bool | num | str => rfl
  | arr vs =>
    have hopen : (Frame.array [] :: frames).length < maxOpen := by
      rw [depth] at h; rw [List.length_cons]; omega
    cases vs <;> exact run_firstItem frames (by simp) (start_openBracket hopen) _
  | obj ms =>
    have hopen : (Frame.array [] :: frames).length < maxOpen := by
      rw [depth] at h; rw [List.length_cons]; omega
    cases ms <;> exact run_firstItem frames (by simp) (start_openBrace hopen) _

mutual

/-- **The machine.** The tokens of a value make up the value, whatever is open around it, as long as
    not too much is. -/
theorem run_tokens (frames : List Frame) (ts : List Token) :
    ∀ v : Json, frames.length + v.depth ≤ maxOpen →
      (Progress.value frames).run (v.tokens ++ ts) = (Progress.complete v frames).run ts
  | .null, _ | .bool _, _ | .num _, _ | .str _, _ => rfl
  | .arr [], h => by
    have hopen : frames.length < maxOpen := by rw [depth] at h; omega
    simp [tokens, Progress.run, Progress.step, start_openBracket hopen]
  | .arr (v :: vs), h => by
    rw [depth, depthItems] at h
    have hopen : frames.length < maxOpen := by omega
    rw [tokens, List.cons_append, Progress.run, Progress.step, start_openBracket hopen]
    dsimp only
    rw [List.append_assoc, run_firstItem_tokens frames _ v (by omega),
      run_tokens (.array [] :: frames) _ v (by rw [List.length_cons]; omega),
      run_tokensOfItems frames ts vs v [] (by omega)]
    rfl
  | .obj [], h => by
    have hopen : frames.length < maxOpen := by rw [depth] at h; omega
    simp [tokens, Progress.run, Progress.step, start_openBrace hopen]
  | .obj ((k, v) :: ms), h => by
    rw [depth, depthMembers] at h
    have hopen : frames.length < maxOpen := by omega
    rw [tokens, List.cons_append, Progress.run, Progress.step, start_openBrace hopen]
    show (Progress.value (.object [] k :: frames)).run (tokens v ++ tokensOfMembers ms ++ ts) = _
    rw [List.append_assoc, run_tokens (.object [] k :: frames) _ v
      (by rw [List.length_cons]; omega), run_tokensOfMembers frames ts ms k v [] (by omega)]
    rfl

/-- With an array open and its last item complete, the further items are read up to its end. -/
theorem run_tokensOfItems (frames : List Frame) (ts : List Token) :
    ∀ (vs : List Json) (v : Json) (items : List Json),
      frames.length + 1 + depthItems vs ≤ maxOpen →
      (Progress.complete v (.array items :: frames)).run (tokensOfItems vs ++ ts) =
        (Progress.complete (.arr ((v :: items).reverse ++ vs)) frames).run ts
  | [], v, items, _ => by rw [List.append_nil]; rfl
  | w :: vs, v, items, h => by
    rw [depthItems] at h
    rw [tokensOfItems, List.cons_append]
    show (Progress.value (.array (v :: items) :: frames)).run
      (tokens w ++ tokensOfItems vs ++ ts) = _
    rw [List.append_assoc, run_tokens (.array (v :: items) :: frames) _ w
      (by rw [List.length_cons]; omega), run_tokensOfItems frames ts vs w (v :: items) (by omega)]
    simp

/-- With an object open and its last member complete, the further members are read up to its
    end. -/
theorem run_tokensOfMembers (frames : List Frame) (ts : List Token) :
    ∀ (ms : List (String × Json)) (k : String) (v : Json) (members : Members),
      frames.length + 1 + depthMembers ms ≤ maxOpen →
      (Progress.complete v (.object members k :: frames)).run (tokensOfMembers ms ++ ts) =
        (Progress.complete (.obj (((k, v) :: members).reverse ++ ms)) frames).run ts
  | [], k, v, members, _ => by rw [List.append_nil]; rfl
  | (l, w) :: ms, k, v, members, h => by
    rw [depthMembers] at h
    rw [tokensOfMembers, List.cons_append]
    show (Progress.value (.object ((k, v) :: members) l :: frames)).run
      (tokens w ++ tokensOfMembers ms ++ ts) = _
    rw [List.append_assoc, run_tokens (.object ((k, v) :: members) l :: frames) _ w
      (by rw [List.length_cons]; omega),
      run_tokensOfMembers frames ts ms l w ((k, v) :: members) (by omega)]
    simp

end

/-- The machine takes the whole compact text of a value. -/
theorem read_chars {v : Json} (hv : v.Integral) (hdepth : v.depth ≤ maxOpen) :
    Progress.read v.chars = (.complete v [], true) := by
  have hrun := run_tokens [] [] v (by simpa using hdepth)
  rw [List.append_nil, Progress.run] at hrun
  rw [Progress.read, scan_chars hv]
  dsimp only
  rw [hrun]
  rfl

/-- **Compact texts read back.** The compact text of a value is the text of that value. -/
theorem parse?_compact {v : Json} (hv : v.Integral) (hdepth : v.depth ≤ maxOpen) :
    parse? v.compact = some v := by
  rw [parse?, compact, String.toList_ofList, read_chars hv hdepth]

end Json

end SecurityScan
