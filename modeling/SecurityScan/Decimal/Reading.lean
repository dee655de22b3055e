namespace SecurityScan.Decimal

/-!
# Reading decimals into doubles

Two readings of a decimal, for two kinds of text.

* `value` — the number that a list of decimal digits stands for;
* `nearest` — the double nearest to `m · 10 ^ e`, infinite beyond the range;
* `natIn?` and `decimal?` — the number of a numeral, as an integer or as the nearest double;
* `scaled?` — the reading that JSON text gets: at most 64 bits of the digits are kept, and the power
  of ten is applied to that double, so the result may lie one step beside the nearest double;
  beyond the range there is none.
-/

/-- The value of one digit of radix up to sixteen. -/
def digitValue (c : Char) : Nat :=
  if c.isDigit then c.toNat - '0'.toNat
  else if 'a' ≤ c ∧ c ≤ 'f' then c.toNat - 'a'.toNat + 10
  else if 'A' ≤ c ∧ c ≤ 'F' then c.toNat - 'A'.toNat + 10
  else 0

/-- The character is a digit of the radix. -/
def isDigitOf (radix : Nat) (c : Char) : Bool :=
  (c.isDigit || ('a' ≤ c && c ≤ 'f') || ('A' ≤ c && c ≤ 'F')) && digitValue c < radix

/-- The number that digits of a radix stand for. -/
def valueIn (radix : Nat) (ds : List Char) : Nat :=
  ds.foldl (fun n d => n * radix + digitValue d) 0

/-- The number that decimal digits stand for. -/
def value (ds : List Char) : Nat := valueIn 10 ds

/-- Positive infinity. -/
def infinity : Float := 1.0 / 0.0

/-- The double nearest to `m · 10 ^ e`.  Numbers far outside the range are settled by their digit
    count, so that no large power is computed. -/
def nearest (m : Nat) (e : Int) : Float :=
  let top := (Nat.toDigits 10 m).length + e
  if m = 0 ∨ top < -400 then 0.0
  else if 400 < top then infinity
  else Float.ofScientific m (e < 0) e.natAbs

/-! ### Numerals -/

/-- Digits of a radix, at least one. -/
def natIn? (radix : Nat) (ds : List Char) : Option Nat :=
  if !ds.isEmpty && ds.all (isDigitOf radix) then some (valueIn radix ds) else none

/-- Digits with at most one point among them, at least one digit: the value without the point and
    how many digits stand behind it; what follows is left. -/
def decimalPoint (cs : List Char) : Option (Nat × Nat × List Char) :=
  let whole := cs.takeWhile Char.isDigit
  let (fraction, rest) := match cs.dropWhile Char.isDigit with
    | '.' :: more => (more.takeWhile Char.isDigit, more.dropWhile Char.isDigit)
    | rest => ([], rest)
  if whole.isEmpty && fraction.isEmpty then none
  else some (value (whole ++ fraction), fraction.length, rest)

/-- A decimal with an optional exponent, as the nearest double. -/
def decimal? (cs : List Char) : Option Float := do
  let (negative, cs) := match cs with
    | '-' :: rest => (true, rest)
    | '+' :: rest => (false, rest)
    | cs => (false, cs)
  let (m, places, rest) ← decimalPoint cs
  let e ← match rest with
    | [] => some 0
    | x :: rest =>
      if x = 'e' ∨ x = 'E' then
        match rest with
        | '-' :: ds => (natIn? 10 ds).map fun n => -(n : Int)
        | '+' :: ds => (natIn? 10 ds).map fun n => (n : Int)
        | ds => (natIn? 10 ds).map fun n => (n : Int)
      else none
  let x := nearest m (e - places)
  return if negative then -x else x

/-! ### Sixty-four bits of digits -/

/-- The bound of the kept digits. -/
def wordBound : Nat := Nat.pow 2 64

/-- Appends digits to `n` while the result fits a word; also tells how many were appended. -/
def appendWhileFits (n : Nat) : List Char → Nat × Nat
  | [] => (n, 0)
  | d :: ds =>
    let m := n * 10 + digitValue d
    if m < wordBound then
      let (r, taken) := appendWhileFits m ds
      (r, taken + 1)
    else (n, 0)

/-- The double `10 ^ k`. -/
def powerOfTen (k : Nat) : Float := Float.ofScientific 1 false k

/-- `f · 10 ^ e` by one multiplication, or by one or two divisions; none beyond the range. -/
def scale? (f : Float) (e : Int) : Option Float :=
  if f == 0.0 then some f
  else if 0 ≤ e then
    if e ≤ 308 then
      let g := f * powerOfTen e.toNat
      if g.isInf then none else some g
    else none
  else
    let down := (-e).toNat
    if down ≤ 308 then some (f / powerOfTen down)
    else if down ≤ 616 then some (f / powerOfTen 308 / powerOfTen (down - 308))
    else some 0.0

/-- The double of a decimal with the integer digits `whole`, the decimals `fraction` and the
    exponent `e`.  Integer digits beyond a word count as zeros; decimals beyond it are dropped. -/
def scaled? (whole fraction : List Char) (e : Int) : Option Float :=
  let (n, taken) := appendWhileFits 0 whole
  let (m, decimals) := appendWhileFits n fraction
  scale? (Float.ofNat m) ((whole.length - taken : Nat) - (decimals : Int) + e)

end SecurityScan.Decimal
