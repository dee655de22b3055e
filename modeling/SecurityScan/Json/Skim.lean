import SecurityScan.Json.Token

namespace SecurityScan.Json

/-!
# Passing over JSON values

A value that nobody asks for is only passed over.  Its text must have the form of a value, but it may
be nested as deep as it likes, and its numbers and strings need not stand for anything.

* `Lexeme` — a token, or what has the form of a number or string and stands for none;
* `Lexeme.next?` — the lexeme at the head of a text that starts with no blank;
* `Lexeme.scan` — all lexemes of a text, and whether the whole text was made of lexemes;
* `Skim` — where the passing over of a value stands, and `Skim.step` one lexeme of it.
-/

/-- What a text is made of. -/
inductive Lexeme where
  | token (t : Token)
  /-- A number that is too large for a double. -/
  | vastNumber
  /-- A string with half of a surrogate pair in it. -/
  | brokenString
deriving DecidableEq, Repr

/-! ### Lexemes -/

/-- What follows one character of a string, escaped or not.  The digits of an escape need not stand
    for a character. -/
def skipChar : List Char → Option (List Char)
  | '\\' :: 'u' :: rest => (readHex4 rest).map (·.2)
  | cs => (readChar cs).map (·.2)

theorem skipChar_length {cs rest : List Char} (h : skipChar cs = some rest) :
    rest.length < cs.length := by
  unfold skipChar at h
  split at h
  · obtain ⟨⟨n, more⟩, hread, rfl⟩ := Option.map_eq_some_iff.mp h
    have := readHex4_length hread
    simp only [List.length_cons]
    omega
  · obtain ⟨⟨c, more⟩, hread, rfl⟩ := Option.map_eq_some_iff.mp h
    exact readChar_length hread

/-- What follows the closing quote of a string. -/
def skipString (cs : List Char) : Option (List Char) :=
  match cs with
  | '"' :: rest => some rest
  | cs =>
    match h : skipChar cs with
    | none => none
    | some rest =>
      have := skipChar_length h
      skipString rest
termination_by cs.length

theorem skipString_length {cs rest : List Char} (h : skipString cs = some rest) :
    rest.length < cs.length := by
  fun_induction skipString cs with
  | case1 rest =>
    cases h
    exact Nat.lt_succ_self _
  | case2 => cases h
  | case3 cs _ more _ hlt ih => exact Nat.lt_trans (ih h) hlt

/-- The lexeme at the head of a text, and what follows it. -/
def Lexeme.next? (cs : List Char) : Option (Lexeme × List Char) :=
  match Token.next? cs with
  | some (t, rest) => some (.token t, rest)
  | none => match cs with
    | '"' :: rest => (skipString rest).map (.brokenString, ·)
    | cs => (readLiteral cs).map fun p => (.vastNumber, p.2)

theorem Lexeme.next?_length {cs rest : List Char} {t : Lexeme}
    (h : Lexeme.next? cs = some (t, rest)) : rest.length < cs.length := by
  unfold Lexeme.next? at h
  split at h
  · next hnext =>
    cases h
    exact Token.next?_length hnext
  · split at h
    · obtain ⟨more, hskip, heq⟩ := Option.map_eq_some_iff.mp h
      cases heq
      exact Nat.lt_trans (skipString_length hskip) (Nat.lt_succ_self _)
    · obtain ⟨p, hread, heq⟩ := Option.map_eq_some_iff.mp h
      cases heq
      exact readLiteral_length hread

/-- All lexemes of a text up to the first place where none can be read, and whether that place is
    the end. -/
def Lexeme.scan (cs : List Char) : List Lexeme × Bool :=
  match cs with
  | [] => ([], true)
  | c :: rest =>
    if isSpace c then Lexeme.scan rest
    else match h : Lexeme.next? (c :: rest) with
      | none => ([], false)
      | some (t, more) =>
        have := Lexeme.next?_length h
        let (ts, whole) := Lexeme.scan more
        (t :: ts, whole)
termination_by cs.length
decreasing_by all_goals
  simp only [List.length_cons] at *
  omega

/-- The lexeme is a string, whether or not it stands for one. -/
def Lexeme.isString : Lexeme → Bool
  | .token (.str _) | .brokenString => true
  | _ => false

/-! ### The passing over -/

/-- What is open. -/
inductive Bracket where
  | array | object
deriving DecidableEq, Repr

/-- Where the passing over of a value stands, below what is open. -/
inductive Skim where
  /-- A value must follow. -/
  | value (open_ : List Bracket)
  /-- An array has just been opened. -/
  | firstItem (open_ : List Bracket)
  /-- An object has just been opened. -/
  | firstKey (open_ : List Bracket)
  /-- A comma in an object; a key must follow. -/
  | nextKey (open_ : List Bracket)
  /-- A key; its colon must follow. -/
  | afterKey (open_ : List Bracket)
  /-- A value is complete. -/
  | complete (open_ : List Bracket)
deriving DecidableEq, Repr

namespace Skim

/-- A lexeme where a value is expected. -/
def start (open_ : List Bracket) : Lexeme → Option Skim
  | .token .openBracket => some (.firstItem open_)
  | .token .openBrace => some (.firstKey open_)
  | .token .closeBracket | .token .closeBrace | .token .comma | .token .colon => none
  | _ => some (.complete open_)

/-- A lexeme where a key is expected. -/
def key (open_ : List Bracket) (t : Lexeme) : Option Skim :=
  if t.isString then some (.afterKey open_) else none

/-- One lexeme; none if it cannot stand there. -/
def step : Skim → Lexeme → Option Skim
  | .value bs, t => start bs t
  | .firstItem bs, .token .closeBracket => some (.complete bs)
  | .firstItem bs, t => start (.array :: bs) t
  | .firstKey bs, .token .closeBrace => some (.complete bs)
  | .firstKey bs, t => key bs t
  | .nextKey bs, t => key bs t
  | .afterKey bs, .token .colon => some (.value (.object :: bs))
  | .complete (.array :: bs), .token .comma => some (.value (.array :: bs))
  | .complete (.array :: bs), .token .closeBracket => some (.complete bs)
  | .complete (.object :: bs), .token .comma => some (.nextKey bs)
  | .complete (.object :: bs), .token .closeBrace => some (.complete bs)
  | _, _ => none

end Skim

end SecurityScan.Json
