import SecurityScan.Decimal.Reading

namespace SecurityScan.Toml

open Decimal

/-!
# The smallest parts of TOML text

Blanks and comments, strings and keys.  Each reader takes the characters that follow and gives back
what it has read and the characters after that.

* `skipSpace`, `skipLines`, `lineEnd?` — what may stand between the parts of a line, between lines,
  and at the end of a line;
* `string?` — a string in any of its four forms, from its opening quotes on;
* `keyPath?` — a key, its parts separated by dots.
-/

/-- The blanks inside a line. -/
def isSpace (c : Char) : Bool := c = ' ' || c = '\t'

/-- The characters that may stand in comments and strings: no control characters but the tab. -/
def isText (c : Char) : Bool := c = '\t' || (0x20 ≤ c.toNat && c.toNat ≠ 0x7f)

/-- Drops the blanks of a line. -/
def skipSpace (cs : List Char) : List Char := cs.dropWhile isSpace

/-- What follows a line break at the head of a text.  A carriage return alone is none. -/
def lineBreak? : List Char → Option (List Char)
  | '\n' :: rest => some rest
  | '\r' :: '\n' :: rest => some rest
  | _ => none

/-- What follows the end of a line: blanks, perhaps a comment, and a line break or the end of the
    text. -/
def lineEnd? (cs : List Char) : Option (List Char) :=
  let rest := match skipSpace cs with
    | '#' :: comment => comment.dropWhile isText
    | rest => rest
  if rest.isEmpty then some [] else lineBreak? rest

/-- Drops blanks, comments and line breaks. -/
def skipLines (cs : List Char) : List Char :=
  let rest := skipSpace cs
  match lineEnd? rest with
  | some more => if more.length < cs.length then skipLines more else more
  | none => rest
termination_by cs.length

/-! ### Strings -/

/-- The character of an escape of one letter. -/
def escape? : Char → Option Char
  | 'b' => some '\x08'
  | 't' => some '\t'
  | 'n' => some '\n'
  | 'f' => some '\x0c'
  | 'r' => some '\r'
  | '"' => some '"'
  | '\\' => some '\\'
  | _ => none

/-- The character with a code point in hexadecimal digits; a surrogate is none. -/
def codePoint? (ds : List Char) : Option Char := do
  let n ← natIn? 16 ds
  if n.isValidChar then some (Char.ofNat n) else none

/-- Puts a character before what a reader has read. -/
def before (c : Char) (read : Option (List Char × List Char)) :
    Option (List Char × List Char) :=
  read.map fun p => (c :: p.1, p.2)

/-- The characters of a string in double quotes, up to its end. -/
def basic? : List Char → Option (List Char × List Char)
  | '"' :: rest => some ([], rest)
  | '\\' :: 'u' :: a :: b :: c :: d :: rest =>
    (codePoint? [a, b, c, d]).bind fun x => before x (basic? rest)
  | '\\' :: 'U' :: a :: b :: c :: d :: e :: f :: g :: h :: rest =>
    (codePoint? [a, b, c, d, e, f, g, h]).bind fun x => before x (basic? rest)
  | '\\' :: x :: rest => (escape? x).bind fun x => before x (basic? rest)
  | x :: rest => if isText x then before x (basic? rest) else none
  | [] => none

/-- The characters of a string in single quotes, up to its end; nothing is escaped. -/
def literal? : List Char → Option (List Char × List Char)
  | '\'' :: rest => some ([], rest)
  | x :: rest => if isText x then before x (literal? rest) else none
  | [] => none

/-- The end of a string in triple quotes: up to two more quotes belong to the string. -/
def closing (quote : Char) : List Char → List Char × List Char
  | x :: y :: rest =>
    if x = quote ∧ y = quote then ([quote, quote], rest)
    else if x = quote then ([quote], y :: rest)
    else ([], x :: y :: rest)
  | [x] => if x = quote then ([quote], []) else ([], [x])
  | [] => ([], [])

/-- Nothing but blanks is left of the line. -/
def lineIsBlank (cs : List Char) : Bool := (lineBreak? (skipSpace cs)).isSome

/-- The characters of a string in three double quotes.  While `joining`, the blanks and line breaks
    behind a backslash at the end of a line are dropped. -/
def multiBasic? (joining : Bool) : List Char → Option (List Char × List Char)
  | '"' :: '"' :: '"' :: rest => some (closing '"' rest)
  | '\\' :: 'u' :: a :: b :: c :: d :: rest =>
    (codePoint? [a, b, c, d]).bind fun x => before x (multiBasic? false rest)
  | '\\' :: 'U' :: a :: b :: c :: d :: e :: f :: g :: h :: rest =>
    (codePoint? [a, b, c, d, e, f, g, h]).bind fun x => before x (multiBasic? false rest)
  | '\\' :: x :: rest =>
    if lineIsBlank (x :: rest) then multiBasic? true (x :: rest)
    else (escape? x).bind fun x => before x (multiBasic? false rest)
  | '\r' :: '\n' :: rest =>
    if joining then multiBasic? true rest else before '\n' (multiBasic? false rest)
  | x :: rest =>
    if joining && (isSpace x || x = '\n') then multiBasic? true rest
    else if isText x || x = '\n' then before x (multiBasic? false rest)
    else none
  | [] => none

/-- The characters of a string in three single quotes. -/
def multiLiteral? : List Char → Option (List Char × List Char)
  | '\'' :: '\'' :: '\'' :: rest => some (closing '\'' rest)
  | '\r' :: '\n' :: rest => before '\n' (multiLiteral? rest)
  | x :: rest => if isText x || x = '\n' then before x (multiLiteral? rest) else none
  | [] => none

/-- Drops a line break that opens a string in triple quotes. -/
def dropFirstBreak (cs : List Char) : List Char := (lineBreak? cs).getD cs

/-- A string of one line. -/
def lineString? : List Char → Option (List Char × List Char)
  | '"' :: rest => basic? rest
  | '\'' :: rest => literal? rest
  | _ => none

/-- A string in any of its forms. -/
def string? : List Char → Option (List Char × List Char)
  | '"' :: '"' :: '"' :: rest => multiBasic? false (dropFirstBreak rest)
  | '\'' :: '\'' :: '\'' :: rest => multiLiteral? (dropFirstBreak rest)
  | cs => lineString? cs

/-! ### Keys -/

/-- The characters of a key without quotes. -/
def isBare (c : Char) : Bool := c.isAlphanum || c = '_' || c = '-'

/-- One part of a key. -/
def keyPart? (cs : List Char) : Option (String × List Char) :=
  match lineString? cs with
  | some (name, rest) => some (String.ofList name, rest)
  | none =>
    let name := cs.takeWhile isBare
    if name.isEmpty then none else some (String.ofList name, cs.dropWhile isBare)

/-- A key: one part or more, with dots between them; blanks around the parts are dropped. -/
def keyPath? (cs : List Char) : Option (List String × List Char) := do
  let (name, rest) ← keyPart? (skipSpace cs)
  match skipSpace rest with
  | '.' :: more =>
    if more.length < cs.length then
      let (names, rest) ← keyPath? more
      return (name :: names, rest)
    else none
  | rest => return ([name], rest)
termination_by cs.length

end SecurityScan.Toml
