import SecurityScan.Json.Basic
import SecurityScan.Decimal.Shortest

namespace SecurityScan

open Decimal

/-!
# Compact JSON text

The text without blanks that documents, reports and messages are written in.

* `Json.escape` — the characters of a string as they stand between quotes: only the quote, the
  backslash and control characters are escaped;
* `Number.chars` — an integer in full, a double by its shortest decimal, what is not finite as
  `null`;
* `Json.chars` and `Json.compact` — the text of a value.
-/

/-- Doubles are positional from `1e-5` up to below `1e16`, and a positive exponent has a sign. -/
def Number.layout : Layout := ⟨-5, 16, true⟩

/-- The characters of a number. -/
def Number.chars : Number → List Char
  | .int i => (if i < 0 then ['-'] else []) ++ digits i.natAbs
  | .float x => if x.isFinite then layout.write x else ['n', 'u', 'l', 'l']

namespace Json

/-- A hexadecimal digit in lower case. -/
def hexDigit (n : Nat) : Char := Nat.digitChar (n % 16)

/-- How one character stands inside quotes. -/
def escapeChar (c : Char) : List Char :=
  if c = '"' then ['\\', '"']
  else if c = '\\' then ['\\', '\\']
  else if c = '\x08' then ['\\', 'b']
  else if c = '\t' then ['\\', 't']
  else if c = '\n' then ['\\', 'n']
  else if c = '\x0c' then ['\\', 'f']
  else if c = '\r' then ['\\', 'r']
  else if c.toNat < 0x20 then ['\\', 'u', '0', '0', hexDigit (c.toNat / 16), hexDigit c.toNat]
  else [c]

/-- How characters stand inside quotes. -/
def escape (cs : List Char) : List Char := cs.flatMap escapeChar

/-- A string with its quotes. -/
def quoted (s : String) : List Char := '"' :: escape s.toList ++ ['"']

mutual
/-- The compact text of a value as characters. -/
def chars : Json → List Char
  | .null => ['n', 'u', 'l', 'l']
  | .bool true => ['t', 'r', 'u', 'e']
  | .bool false => ['f', 'a', 'l', 's', 'e']
  | .num n => n.chars
  | .str s => quoted s
  | .arr [] => ['[', ']']
  | .arr (v :: vs) => '[' :: chars v ++ charsItems vs
  | .obj [] => ['\x7b', '\x7d']
  | .obj ((k, v) :: ms) => '\x7b' :: quoted k ++ ':' :: chars v ++ charsMembers ms
/-- The items after the first one, each after its comma, and the closing bracket. -/
def charsItems : List Json → List Char
  | [] => [']']
  | v :: vs => ',' :: chars v ++ charsItems vs
/-- The members after the first one, each after its comma, and the closing brace. -/
def charsMembers : List (String × Json) → List Char
  | [] => ['\x7d']
  | (k, v) :: ms => ',' :: quoted k ++ ':' :: chars v ++ charsMembers ms
end

/-- The compact text of a value. -/
def compact (v : Json) : String := String.ofList v.chars

end Json

end SecurityScan
