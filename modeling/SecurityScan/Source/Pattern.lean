import SecurityScan.Text.Blank

namespace SecurityScan.Source

/-!
# Patterns over source text

* `CharClass` — the kinds of character a pattern tells apart;
* `Piece` and `Pattern` — a pattern is a row of pieces;
* `Pattern.fits` — the pattern matches at the start of a text that follows a given character;
* `Pattern.occurs` — the pattern matches somewhere in a text.
-/

/-- A kind of character. -/
inductive CharClass where
  | exactly (c : Char)
  | among (cs : List Char)
  /-- White space of any script, line breaks included. -/
  | blank
  /-- Anything within a line. -/
  | inLine
deriving DecidableEq, Repr

/-- The character is of the kind. -/
def CharClass.has : CharClass → Char → Bool
  | .exactly c, x => x == c
  | .among cs, x => cs.contains x
  | .blank, x => Text.isBlank x
  | .inLine, x => x != '\n'

/-- A piece of a pattern. -/
inductive Piece where
  /-- One character of a kind. -/
  | one (k : CharClass)
  /-- Any number of characters of a kind. -/
  | run (k : CharClass)
  /-- One of some words. -/
  | word (choices : List String)
  /-- The edge of a word: word characters are the letters, digits and underscore of ASCII. -/
  | edge
deriving DecidableEq, Repr

/-- A row of pieces. -/
abbrev Pattern := List Piece

/-- The pieces of a literal text. -/
def literal (s : String) : Pattern := s.toList.map fun c => .one (.exactly c)

/-- The character is part of a word. -/
def isWordChar (c : Char) : Bool := c.isAlphanum || c == '_'

/-- Between the two characters a word starts or ends. -/
def isEdge (before after : Option Char) : Bool :=
  before.any isWordChar != after.any isWordChar

/-- Some number of characters of a kind, then `after`, which is told the character before it. -/
def runThen (k : CharClass) (after : Option Char → List Char → Bool) :
    Option Char → List Char → Bool
  | before, [] => after before []
  | before, x :: xs => after before (x :: xs) || (k.has x && runThen k after (some x) xs)

namespace Pattern

/-- The pattern matches a start of the text, which follows the character `before`. -/
def fits : Pattern → (before : Option Char) → List Char → Bool
  | [], _, _ => true
  | .one k :: ps, _, xs =>
    match xs with
    | x :: xs => k.has x && fits ps (some x) xs
    | [] => false
  | .run k :: ps, before, xs => runThen k (fits ps) before xs
  | .word choices :: ps, before, xs =>
    choices.any fun w =>
      w.toList.isPrefixOf xs &&
        fits ps (w.toList.getLast?.or before) (xs.drop w.toList.length)
  | .edge :: ps, before, xs => isEdge before xs.head? && fits ps before xs

/-- The pattern matches somewhere in the text, which follows the character `before`. -/
def occursFrom (p : Pattern) : (before : Option Char) → List Char → Bool
  | before, [] => fits p before []
  | before, x :: xs => fits p before (x :: xs) || occursFrom p (some x) xs

/-- The pattern matches somewhere in the text. -/
def occurs (p : Pattern) (text : List Char) : Bool := p.occursFrom none text

end Pattern

end SecurityScan.Source
