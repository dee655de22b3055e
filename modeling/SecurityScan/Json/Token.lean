import SecurityScan.Json.Basic
import SecurityScan.Decimal.Reading

namespace SecurityScan.Json

open Decimal

/-!
# Tokens of JSON text

* `Token` — punctuation, literals, numbers and strings;
* `readString` — the characters of a string up to its closing quote;
* `readNumber` — a number literal, as long as the grammar allows;
* `Token.next?` — the token at the head of a text that starts with no blank;
* `Token.scan` — all tokens of a text, and whether the whole text was made of tokens.
-/

/-- A token of JSON text. -/
inductive Token where
  | openBracket | closeBracket | openBrace | closeBrace | comma | colon
  | null
  | bool (b : Bool)
  | num (n : Number)
  | str (s : String)
deriving DecidableEq, Repr

/-- The four blanks of JSON. -/
def isSpace (c : Char) : Bool := c = ' ' || c = '\t' || c = '\n' || c = '\r'

/-! ### Strings -/

/-- Four hexadecimal digits at the head of a text, and what follows them. -/
def readHex4 : List Char → Option (Nat × List Char)
  | a :: b :: c :: d :: rest =>
    if [a, b, c, d].all (isDigitOf 16) then some (valueIn 16 [a, b, c, d], rest) else none
  | _ => none

/-- A code unit that opens a surrogate pair. -/
def isHighSurrogate (n : Nat) : Bool := 0xD800 ≤ n && n < 0xDC00

/-- A code unit that closes a surrogate pair. -/
def isLowSurrogate (n : Nat) : Bool := 0xDC00 ≤ n && n < 0xE000

/-- The character of an escape, the text starting after `\u`.  A high surrogate must be followed by
    the escape of a low one; a low one must not stand alone. -/
def readUnicode (cs : List Char) : Option (Char × List Char) :=
  match readHex4 cs with
  | none => none
  | some (n, rest) =>
    if isHighSurrogate n then
      match rest with
      | '\\' :: 'u' :: more =>
        match readHex4 more with
        | some (m, rest) =>
          if isLowSurrogate m then
            some (Char.ofNat (0x10000 + (n - 0xD800) * 0x400 + (m - 0xDC00)), rest)
          else none
        | none => none
      | _ => none
    else if isLowSurrogate n then none
    else some (Char.ofNat n, rest)

/-- The character that an escape of one letter stands for. -/
def simpleEscape : Char → Option Char
  | '"' => some '"'
  | '\\' => some '\\'
  | '/' => some '/'
  | 'b' => some '\x08'
  | 'f' => some '\x0c'
  | 'n' => some '\n'
  | 'r' => some '\r'
  | 't' => some '\t'
  | _ => none

/-- One character of a string, escaped or not, at the head of a text; none at the closing quote, at
    a bare control character, at an escape that is not one, or at the end. -/
def readChar : List Char → Option (Char × List Char)
  | [] => none
  | '"' :: _ => none
  | '\\' :: 'u' :: rest => readUnicode rest
  | '\\' :: c :: rest => (simpleEscape c).map (·, rest)
  | ['\\'] => none
  | c :: rest => if c.toNat < 0x20 then none else some (c, rest)

theorem readHex4_length {cs rest : List Char} {n : Nat} (h : readHex4 cs = some (n, rest)) :
    rest.length < cs.length := by
  unfold readHex4 at h
  split at h
  · split at h
    · simp only [Option.some.injEq, Prod.mk.injEq] at h
      simp [← h.2]; omega
    · simp at h
  · simp at h

theorem readUnicode_length {cs rest : List Char} {c : Char}
    (h : readUnicode cs = some (c, rest)) : rest.length < cs.length := by
  unfold readUnicode at h
  split at h
  · simp at h
  · next n r hn =>
    have := readHex4_length hn
    split at h
    · split at h
      · split at h
        · next hm =>
          have := readHex4_length hm
          split at h
          · simp only [Option.some.injEq, Prod.mk.injEq] at h
            simp only [List.length_cons, ← h.2] at *; omega
          · simp at h
        · simp at h
      · simp at h
    · split at h
      · simp at h
      · simp only [Option.some.injEq, Prod.mk.injEq] at h
        simp only [← h.2] at *; omega

theorem readChar_length {cs rest : List Char} {c : Char} (h : readChar cs = some (c, rest)) :
    rest.length < cs.length := by
  unfold readChar at h
  split at h
  · simp at h
  · simp at h
  · have := readUnicode_length h
    simp only [List.length_cons]; omega
  · simp only [Option.map_eq_some_iff, Prod.mk.injEq] at h
    obtain ⟨_, _, _, rfl⟩ := h
    simp only [List.length_cons]; omega
  · simp at h
  · split at h
    · simp at h
    · simp only [Option.some.injEq, Prod.mk.injEq] at h
      simp [← h.2]

/-- The characters of a string up to its closing quote, and what follows the quote. -/
def readString (cs : List Char) : Option (List Char × List Char) :=
  match cs with
  | '"' :: rest => some ([], rest)
  | cs =>
    match h : readChar cs with
    | none => none
    | some (c, rest) =>
      have := readChar_length h
      (readString rest).map fun p => (c :: p.1, p.2)
termination_by cs.length

theorem readString_length {cs : List Char} :
    ∀ p, readString cs = some p → p.2.length < cs.length := by
  fun_induction readString cs with
  | case1 rest => simp
  | case2 => simp
  | case3 cs _ c rest hc hlt ih =>
    intro p h
    obtain ⟨q, hq, rfl⟩ := Option.map_eq_some_iff.1 h
    exact Nat.lt_trans (ih q hq) hlt

/-! ### Numbers -/

/-- A number literal, still in digits. -/
structure Literal where
  negative : Bool
  whole : List Char
  /-- The decimals, if there is a point. -/
  fraction : Option (List Char)
  /-- The sign and the digits of the exponent, if there is one. -/
  exponent : Option (Bool × List Char)
deriving DecidableEq, Repr

/-- The leading digits of a text, and what follows them. -/
def takeDigits (cs : List Char) : List Char × List Char := 
  (cs.takeWhile Char.isDigit, cs.dropWhile Char.isDigit)

theorem takeDigits_length_le (cs : List Char) : (takeDigits cs).2.length ≤ cs.length :=
  (List.dropWhile_sublist _).length_le

theorem takeDigits_length_lt {cs ds rest : List Char} (h : takeDigits cs = (ds, rest))
    (hd : ds ≠ []) : rest.length < cs.length := by
  rw [takeDigits, Prod.mk.injEq] at h
  have := congrArg List.length (List.takeWhile_append_dropWhile (p := Char.isDigit) (l := cs))
  rw [h.1, h.2, List.length_append] at this
  have := List.length_pos_iff.2 hd
  omega

/-- The integer part: a single zero, or digits that start with none. -/
def readWhole : List Char → Option (List Char × List Char)
  | '0' :: rest => some (['0'], rest)
  | cs => match takeDigits cs with
    | ([], _) => none
    | (ds, rest) => some (ds, rest)

theorem readWhole_length {cs ds rest : List Char} (h : readWhole cs = some (ds, rest)) :
    rest.length < cs.length := by
  unfold readWhole at h
  split at h
  · simp only [Option.some.injEq, Prod.mk.injEq] at h
    simp [← h.2]
  · split at h
    · simp at h
    · next ds' rest' hne hd =>
      simp only [Option.some.injEq, Prod.mk.injEq] at h
      exact h.2 ▸ takeDigits_length_lt hd hne

/-- The decimals after a point; a point without digits is an error. -/
def readFraction : List Char → Option (Option (List Char) × List Char)
  | '.' :: rest => match takeDigits rest with
    | ([], _) => none
    | (ds, rest) => some (some ds, rest)
  | cs => some (none, cs)

theorem readFraction_length {cs rest : List Char} {f : Option (List Char)}
    (h : readFraction cs = some (f, rest)) : rest.length ≤ cs.length := by
  unfold readFraction at h
  split at h
  · next tail =>
    have := takeDigits_length_le tail
    split at h
    · simp at h
    · next hd =>
      simp only [Option.some.injEq, Prod.mk.injEq] at h
      simp only [hd] at this
      simp only [← h.2, List.length_cons]; omega
  · simp only [Option.some.injEq, Prod.mk.injEq] at h
    simp [h.2]

/-- The sign and the digits after an exponent letter. -/
def readExponentDigits (cs : List Char) : Option (Option (Bool × List Char) × List Char) :=
  let (negative, digits) := match cs with
    | '-' :: rest => (true, rest)
    | '+' :: rest => (false, rest)
    | cs => (false, cs)
  match takeDigits digits with
  | ([], _) => none
  | (ds, rest) => some (some (negative, ds), rest)

theorem readExponentDigits_length {cs rest : List Char} {e : Option (Bool × List Char)}
    (h : readExponentDigits cs = some (e, rest)) : rest.length ≤ cs.length := by
  have tail (b : Bool) (cs : List Char) (h : (match takeDigits cs with
      | ([], _) => none
      | (ds, rest) => some (some (b, ds), rest)) = some (e, rest)) :
      rest.length ≤ cs.length := by
    have := takeDigits_length_le cs
    split at h
    · simp at h
    · next hd =>
      simp only [Option.some.injEq, Prod.mk.injEq] at h
      rw [hd] at this
      simpa [← h.2] using this
  unfold readExponentDigits at h
  split at h
  next b digits hs =>
  have := tail _ _ h
  split at hs <;> simp only [Prod.mk.injEq] at hs <;> simp only [← hs.2, List.length_cons] at * <;>
    omega

/-- The exponent; a letter without digits is an error. -/
def readExponent : List Char → Option (Option (Bool × List Char) × List Char)
  | 'e' :: rest => readExponentDigits rest
  | 'E' :: rest => readExponentDigits rest
  | cs => some (none, cs)

theorem readExponent_length {cs rest : List Char} {e : Option (Bool × List Char)}
    (h : readExponent cs = some (e, rest)) : rest.length ≤ cs.length := by
  unfold readExponent at h
  split at h
  · have := readExponentDigits_length h
    simp only [List.length_cons]; omega
  · have := readExponentDigits_length h
    simp only [List.length_cons]; omega
  · simp only [Option.some.injEq, Prod.mk.injEq] at h
    simp [h.2]

/-- The unsigned part of a number literal at the head of a text, and what follows it. -/
def readMagnitude (negative : Bool) (cs : List Char) : Option (Literal × List Char) := do
  let (whole, cs) ← readWhole cs
  let (fraction, cs) ← readFraction cs
  let (exponent, cs) ← readExponent cs
  return (⟨negative, whole, fraction, exponent⟩, cs)

/-- A number literal at the head of a text, and what follows it. -/
def readLiteral : List Char → Option (Literal × List Char)
  | '-' :: rest => readMagnitude true rest
  | cs => readMagnitude false cs

theorem readMagnitude_length {b : Bool} {cs rest : List Char} {l : Literal}
    (h : readMagnitude b cs = some (l, rest)) : rest.length < cs.length := by
  simp only [readMagnitude, Option.bind_eq_bind, Option.bind_eq_some_iff, Prod.exists,
    Option.pure_def, Option.some.injEq, Prod.mk.injEq] at h
  obtain ⟨_, _, hw, _, _, hf, _, _, he, -, rfl⟩ := h
  have := readWhole_length hw
  have := readFraction_length hf
  have := readExponent_length he
  omega

theorem readLiteral_length {cs rest : List Char} {l : Literal}
    (h : readLiteral cs = some (l, rest)) : rest.length < cs.length := by
  unfold readLiteral at h
  split at h
  · have := readMagnitude_length h
    simp only [List.length_cons]; omega
  · exact readMagnitude_length h

/-- A double with the sign of a literal. -/
def signed (negative : Bool) (x : Float) : Number := .float (if negative then -x else x)

/-- The number of a literal.  Without point and exponent it is an integer if a 64-bit word holds
    it, signed or not, except that a negative zero is a double; all else is a double, and none if
    that overflows. -/
def Literal.number? (l : Literal) : Option Number :=
  match l.fraction, l.exponent with
  | none, none =>
    let n := value l.whole
    if l.negative then
      if n = 0 then some (signed true 0.0)
      else if n ≤ Nat.pow 2 63 then some (.int (-n))
      else (scaled? l.whole [] 0).map (signed true)
    else if n < Nat.pow 2 64 then some (.int n)
    else (scaled? l.whole [] 0).map (signed false)
  | fraction, exponent =>
    let e : Int := match exponent with
      | none => 0
      | some (true, ds) => -value ds
      | some (false, ds) => value ds
    (scaled? l.whole (fraction.getD []) e).map (signed l.negative)

/-- The number at the head of a text, and what follows it. -/
def readNumber (cs : List Char) : Option (Number × List Char) := do
  let (l, rest) ← readLiteral cs
  let n ← l.number?
  return (n, rest)

theorem readNumber_length {cs rest : List Char} {n : Number}
    (h : readNumber cs = some (n, rest)) : rest.length < cs.length := by
  simp only [readNumber, Option.bind_eq_bind, Option.bind_eq_some_iff, Prod.exists,
    Option.pure_def, Option.some.injEq, Prod.mk.injEq] at h
  obtain ⟨_, _, hl, _, -, -, rfl⟩ := h
  exact readLiteral_length hl

/-! ### The scanner -/

/-- The token at the head of a text, and what follows it. -/
def Token.next? : List Char → Option (Token × List Char)
  | [] => none
  | '[' :: rest => some (.openBracket, rest)
  | ']' :: rest => some (.closeBracket, rest)
  | '\x7b' :: rest => some (.openBrace, rest)
  | '\x7d' :: rest => some (.closeBrace, rest)
  | ',' :: rest => some (.comma, rest)
  | ':' :: rest => some (.colon, rest)
  | 'n' :: 'u' :: 'l' :: 'l' :: rest => some (.null, rest)
  | 't' :: 'r' :: 'u' :: 'e' :: rest => some (.bool true, rest)
  | 'f' :: 'a' :: 'l' :: 's' :: 'e' :: rest => some (.bool false, rest)
  | '"' :: rest => (readString rest).map fun p => (.str (String.ofList p.1), p.2)
  | cs => (readNumber cs).map fun p => (.num p.1, p.2)

theorem Token.next?_length {cs rest : List Char} {t : Token}
    (h : Token.next? cs = some (t, rest)) : rest.length < cs.length := by
  unfold Token.next? at h
  split at h
  case h_1 => simp at h
  case h_11 =>
    obtain ⟨p, hp, he⟩ := Option.map_eq_some_iff.1 h
    have := readString_length p hp
    simp only [Prod.mk.injEq] at he
    simp only [List.length_cons, ← he.2]; omega
  case h_12 =>
    obtain ⟨p, hp, he⟩ := Option.map_eq_some_iff.1 h
    simp only [Prod.mk.injEq] at he
    exact he.2 ▸ readNumber_length hp
  all_goals
    simp only [Option.some.injEq, Prod.mk.injEq] at h
    simp only [List.length_cons, ← h.2]; omega

/-- All tokens of a text up to the first place where none can be read, and whether that place is
    the end. -/
def Token.scan (cs : List Char) : List Token × Bool :=
  match cs with
  | [] => ([], true)
  | c :: rest =>
    if isSpace c then Token.scan rest
    else match h : Token.next? (c :: rest) with
      | none => ([], false)
      | some (t, more) =>
        have := Token.next?_length h
        let (ts, whole) := Token.scan more
        (t :: ts, whole)
termination_by cs.length
decreasing_by all_goals
  simp only [List.length_cons] at *
  omega

end SecurityScan.Json
