namespace SecurityScan.Yaml

/-!
# A place in YAML text

* `isBreak` and `lineBreak` — the five line breaks, and the text each stands for in a scalar;
* `isReadable` — the characters a YAML text may hold at all;
* `Cursor` — the characters that follow, with the position that indentation and the limits on keys
  are measured by;
* `Gap` and `Cursor.gap` — the blanks and line breaks between two pieces of a scalar, and the text
  they fold to.
-/

/-- The characters that end a line. -/
def isBreak (c : Char) : Bool :=
  c = '\r' || c = '\n' || c = '\u0085' || c = '\u2028' || c = '\u2029'

/-- The blanks inside a line. -/
def isBlank (c : Char) : Bool := c = ' ' || c = '\t'

/-- The characters that may stand in a YAML text: no control characters but the tab and the line
    breaks. -/
def isReadable (c : Char) : Bool :=
  let n := c.toNat
  n == 0x09 || n == 0x0a || n == 0x0d || (0x20 ≤ n && n ≤ 0x7e) || n == 0x85 ||
  (0xa0 ≤ n && n ≤ 0xd7ff) || (0xe000 ≤ n && n ≤ 0xfffd) || 0x10000 ≤ n

/-- There is no character, or one that ends a line. -/
def endsLine : Option Char → Bool
  | none => true
  | some c => isBreak c

/-- There is no character, or a blank, or one that ends a line. -/
def endsWord : Option Char → Bool
  | none => true
  | some c => isBlank c || isBreak c

/-- The characters of names of anchors, tag handles and directives. -/
def isNameChar (c : Char) : Bool := c.isAlphanum || c = '_' || c = '-'

/-- What follows, and where it stands: `index` counts characters from the start of the text. -/
structure Cursor where
  rest : List Char
  index : Nat
  line : Nat
  column : Nat
deriving Repr

namespace Cursor

/-- The start of a text. -/
def start (cs : List Char) : Cursor := ⟨cs, 0, 0, 0⟩

/-- The character at the cursor. -/
def head? (c : Cursor) : Option Char := c.rest.head?

/-- The `n`-th character after the one at the cursor. -/
def at? (c : Cursor) (n : Nat) : Option Char := c.rest[n]?

/-- The character at the cursor is `x`. -/
def sees (c : Cursor) (x : Char) : Bool := c.head? == some x

/-- Moves over `n` characters of the line. -/
def skip (c : Cursor) (n : Nat) : Cursor :=
  { c with rest := c.rest.drop n, index := c.index + n, column := c.column + n }

/-- Moves over the characters of the line that satisfy `p`. -/
def skipWhile (c : Cursor) (p : Char → Bool) : Cursor := c.skip (c.rest.takeWhile p).length

/-- The characters from the cursor on that satisfy `p`, and the cursor after them. -/
def take (c : Cursor) (p : Char → Bool) : List Char × Cursor := (c.rest.takeWhile p, c.skipWhile p)

/-- Reads a line break: what it stands for in a scalar, and the cursor at the next line.  A line or
    paragraph separator stands for itself, any other break for a line feed. -/
def lineBreak (c : Cursor) : List Char × Cursor :=
  let after (n : Nat) : Cursor :=
    { rest := c.rest.drop n, index := c.index + n, line := c.line + 1, column := 0 }
  match c.rest with
  | '\r' :: '\n' :: _ => (['\n'], after 2)
  | x :: _ =>
    if x = '\u2028' ∨ x = '\u2029' then ([x], after 1)
    else if isBreak x then (['\n'], after 1)
    else ([], c)
  | [] => ([], c)

/-- The cursor at the next line. -/
def skipBreak (c : Cursor) : Cursor := c.lineBreak.2

/-- The cursor stands at the end of its line. -/
def atLineEnd (c : Cursor) : Bool := endsLine c.head?

/-- Moves over a comment, if one starts here. -/
def skipComment (c : Cursor) : Cursor :=
  if c.sees '#' then c.skipWhile (fun x => !isBreak x) else c

/-- The cursor stands at a line that separates documents: three times `mark`, alone or before a
    blank. -/
def atMarker (c : Cursor) (mark : Char) : Bool :=
  c.column == 0 && [mark, mark, mark].isPrefixOf c.rest && endsWord (c.at? 3)

/-- The cursor stands at either line that separates documents. -/
def atDocumentMarker (c : Cursor) : Bool := c.atMarker '-' || c.atMarker '.'

end Cursor

/-! ### Folding -/

/-- What stands between two pieces of a scalar. -/
inductive Gap where
  /-- Blanks of one line. -/
  | spaces (cs : List Char)
  /-- Line breaks, and the blanks at the start of lines with them. -/
  | breaks (first others : List Char)
deriving Repr

/-- The text of line breaks in a folded scalar: a single one becomes a blank, of several the first
    is dropped; a separator is never dropped. -/
def foldBreaks (first others : List Char) : List Char :=
  if first.head? = some '\n' then (if others = [] then [' '] else others) else first ++ others

/-- The text a gap folds to. -/
def Gap.text : Gap → List Char
  | .spaces cs => cs
  | .breaks first others => foldBreaks first others

/-- The gap holds a line break. -/
def Gap.isBroken : Gap → Bool
  | .spaces _ => false
  | .breaks _ _ => true

/-- Reads the blanks and line breaks at the cursor.  Where `tabLimit` is given, a tab that starts a
    continuation line left of that column is an error.  The fuel is the number of characters that
    are left. -/
def Cursor.gapFrom (tabLimit : Option Int) : Nat → Gap → Cursor → Option (Gap × Cursor)
  | 0, gap, c => some (gap, c)
  | fuel + 1, gap, c =>
    match c.head? with
    | none => some (gap, c)
    | some x =>
      if isBlank x then
        let violates := match tabLimit with
          | some limit => gap.isBroken && (c.column : Int) < limit && x = '\t'
          | none => false
        if violates then none
        else match gap with
          | .spaces cs => gapFrom tabLimit fuel (.spaces (cs ++ [x])) (c.skip 1)
          | .breaks first others => gapFrom tabLimit fuel (.breaks first others) (c.skip 1)
      else if isBreak x then
        let (text, next) := c.lineBreak
        match gap with
        | .spaces _ => gapFrom tabLimit fuel (.breaks text []) next
        | .breaks first others => gapFrom tabLimit fuel (.breaks first (others ++ text)) next
      else some (gap, c)

/-- Reads on from a gap that has begun. -/
def Cursor.gap (c : Cursor) (tabLimit : Option Int) (begun : Gap) : Option (Gap × Cursor) :=
  Cursor.gapFrom tabLimit c.rest.length begun c

end SecurityScan.Yaml
