import SecurityScan.Text.Blank
import SecurityScan.Config.Setting
import SecurityScan.Toml.Lexeme

namespace SecurityScan.Toml

open Decimal

/-!
# TOML numbers, booleans and dates

Each kind is read from a whole word, the longest run of characters that can stand in one.

* `integer?` and `float?` — the numbers, with underscores between digits;
* `moment?` — dates and times, which become their text;
* `scalar?` — any of them at the head of a text.
-/

/-! ### Numbers -/

/-- Digits of a radix; an underscore may stand between two of them. -/
def grouped? (radix : Nat) (cs : List Char) : Option (List Char) :=
  let groups := Text.splitAt '_' cs
  if groups.all fun g => !g.isEmpty && g.all (isDigitOf radix) then some groups.flatten else none

/-- Decimal digits without a needless zero in front. -/
def whole? (cs : List Char) : Option (List Char) := do
  let ds ← grouped? 10 cs
  if ds.head? = some '0' ∧ ds ≠ ['0'] then none else return ds

/-- The sign in front of a word, as a factor, and what follows it. -/
def sign (cs : List Char) : Int × List Char :=
  match cs with
  | '+' :: rest => (1, rest)
  | '-' :: rest => (-1, rest)
  | rest => (1, rest)

/-- An integer that fits a signed word of 64 bits. -/
def integer? (cs : List Char) : Option Int :=
  let i : Option Int := match cs with
    | '0' :: 'x' :: ds => (grouped? 16 ds).map fun ds => (valueIn 16 ds : Int)
    | '0' :: 'o' :: ds => (grouped? 8 ds).map fun ds => (valueIn 8 ds : Int)
    | '0' :: 'b' :: ds => (grouped? 2 ds).map fun ds => (valueIn 2 ds : Int)
    | _ => (whole? (sign cs).2).map fun ds => (sign cs).1 * value ds
  i.filter fun i => -(Int.pow 2 63) ≤ i && i < Int.pow 2 63

/-- The exponent of a float from its mark on; nothing is the exponent zero. -/
def exponent? : List Char → Option Int
  | [] => some 0
  | mark :: cs =>
    if mark = 'e' ∨ mark = 'E' then
      (grouped? 10 (sign cs).2).map fun ds => (sign cs).1 * value ds
    else none

/-- A decimal with a point, an exponent or both. -/
def decimalFloat? (cs : List Char) : Option Float := do
  let isMark (c : Char) : Bool := c = 'e' || c = 'E'
  let power ← exponent? (cs.dropWhile fun c => !isMark c)
  let digits := cs.takeWhile fun c => !isMark c
  let wholePart ← whole? (digits.takeWhile (· ≠ '.'))
  match digits.dropWhile (· ≠ '.') with
  | _ :: fraction =>
    let decimals ← grouped? 10 fraction
    return nearest (value (wholePart ++ decimals)) (power - decimals.length)
  | [] => if cs.any isMark then return nearest (value wholePart) power else none

/-- A float; a decimal beyond the range is none. -/
def float? (cs : List Char) : Option Float := do
  let (factor, rest) := sign cs
  let x ← match String.ofList rest with
    | "inf" => some infinity
    | "nan" => some (0.0 / 0.0)
    | _ => (decimalFloat? rest).filter Float.isFinite
  return if factor < 0 then -x else x

/-! ### Dates and times -/

/-- Decimal digits of a fixed count whose value lies in a range, from the head of a text. -/
def field? (count low high : Nat) (cs : List Char) : Option (Nat × List Char) := do
  let n ← natIn? 10 (cs.take count)
  if (cs.take count).length = count ∧ low ≤ n ∧ n ≤ high then return (n, cs.drop count) else none

/-- What follows a character at the head of a text. -/
def after? (c : Char) (cs : List Char) : Option (List Char) :=
  if cs.head? = some c then some (cs.drop 1) else none

/-- The number of days of a month. -/
def daysIn (year month : Nat) : Nat :=
  if month = 2 then
    if year % 4 = 0 ∧ (year % 100 ≠ 0 ∨ year % 400 = 0) then 29 else 28
  else if [4, 6, 9, 11].contains month then 30
  else 31

/-- What follows a date at the head of a text. -/
def date? (cs : List Char) : Option (List Char) := do
  let (year, cs) ← field? 4 0 9999 cs
  let (month, cs) ← field? 2 1 12 (← after? '-' cs)
  let (_, cs) ← field? 2 1 (daysIn year month) (← after? '-' cs)
  return cs

/-- The fraction of a second at the head of a text, as it is written out: nine digits at most, no
    zeros at its end. -/
def fraction? : List Char → Option (List Char × List Char)
  | '.' :: cs =>
    let ds := cs.takeWhile Char.isDigit
    let kept := ((ds.take 9).reverse.dropWhile (· = '0')).reverse
    if ds.isEmpty then none
    else some (if kept.isEmpty then [] else '.' :: kept, cs.dropWhile Char.isDigit)
  | cs => some ([], cs)

/-- A time of day at the head of a text, as it is written out. -/
def time? (cs : List Char) : Option (List Char × List Char) := do
  let clock := cs.take 8
  let (_, cs) ← field? 2 0 23 cs
  let (_, cs) ← field? 2 0 59 (← after? ':' cs)
  let (_, cs) ← field? 2 0 60 (← after? ':' cs)
  let (fraction, cs) ← fraction? cs
  return (clock ++ fraction, cs)

/-- An offset from universal time that makes up the whole text, as it is written out. -/
def offset? : List Char → Option (List Char)
  | [] => some []
  | c :: cs =>
    if c = 'Z' ∨ c = 'z' then (if cs.isEmpty then some ['Z'] else none)
    else if c = '+' ∨ c = '-' then do
      let (hours, rest) ← field? 2 0 23 cs
      let (minutes, rest) ← field? 2 0 59 (← after? ':' rest)
      if rest.isEmpty then
        return (if hours = 0 ∧ minutes = 0 then '+' else c) :: cs
      else none
    else none

/-- A date, a time or both, as its text.  A capital letter stands between date and time. -/
def moment? (cs : List Char) : Option String :=
  match date? cs with
  | some [] => some (String.ofList cs)
  | some (mark :: rest) => do
    if mark = 'T' ∨ mark = 't' ∨ mark = ' ' then
      let (clock, rest) ← time? rest
      let zone ← offset? rest
      return String.ofList (cs.take 10 ++ 'T' :: clock ++ zone)
    else none
  | none => do
    let (clock, rest) ← time? cs
    if rest.isEmpty then return String.ofList clock else none

/-! ### Words -/

/-- The characters of numbers, booleans, dates and times. -/
def isWordChar (c : Char) : Bool := c.isAlphanum || "+-_.:".toList.contains c

/-- The longest word at the head of a text, and what follows it.  A date takes in the time behind a
    single blank. -/
def word (cs : List Char) : List Char × List Char :=
  let first := cs.takeWhile isWordChar
  match cs.dropWhile isWordChar with
  | ' ' :: d :: rest =>
    if date? first = some [] ∧ d.isDigit then
      (first ++ ' ' :: d :: rest.takeWhile isWordChar, rest.dropWhile isWordChar)
    else (first, ' ' :: d :: rest)
  | rest => (first, rest)

/-- What a word stands for. -/
def ofWord? (cs : List Char) : Option Setting :=
  match String.ofList cs with
  | "true" => some (.bool true)
  | "false" => some (.bool false)
  | _ =>
    match integer? cs, float? cs, moment? cs with
    | some i, _, _ => some (.int i)
    | _, some x, _ => some (.float x)
    | _, _, some s => some (.text s)
    | _, _, _ => none

/-- A string, number, boolean, date or time at the head of a text, and what follows it. -/
def scalar? (cs : List Char) : Option (Setting × List Char) :=
  match string? cs with
  | some (s, rest) => some (.text (String.ofList s), rest)
  | none => (ofWord? (word cs).1).map (·, (word cs).2)

end SecurityScan.Toml
