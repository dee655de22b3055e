namespace SecurityScan.Decimal

/-!
# Shortest decimal text of a binary number

A finite double is `m · 2 ^ q`.  Its shortest decimal is the number with the fewest digits that
still rounds to it, and of those the nearest.

* `Parts` — sign, `m`, `q` and the width of the gap below the number, read off the bits;
* `Parts.admits k d` — the decimal `d · 10 ^ k` rounds to the number;
* `Parts.shortest` — digits and exponent of the shortest decimal;
* `Layout` and `Layout.write` — how digits and exponent become text.
-/

/-- A finite double read off its bits: `(-1) ^ negative · m · 2 ^ q`. -/
structure Parts where
  negative : Bool
  m : Nat
  q : Int
  /-- The number is the lowest of its binade, so the gap below it is half the gap above. -/
  narrowBelow : Bool
deriving DecidableEq, Repr

/-- The parts of a double; those of an infinity or a NaN mean nothing. -/
def Parts.ofFloat (x : Float) : Parts :=
  let bits : Nat := x.toBits.toNat
  let fraction : Nat := bits % Nat.pow 2 52
  let biased : Nat := bits / Nat.pow 2 52 % Nat.pow 2 11
  { negative := Nat.pow 2 63 ≤ bits
    m := if biased = 0 then fraction else Nat.pow 2 52 + fraction
    q := if biased = 0 then -1074 else biased - 1075
    narrowBelow := fraction = 0 && 1 < biased }

/-- Numerator and denominator of `base ^ e`. -/
def ratio (base : Nat) (e : Int) : Nat × Nat :=
  if 0 ≤ e then (base.pow e.toNat, 1) else (1, base.pow (-e).toNat)

/-- `d · 10 ^ k` lies between the halfway points to the two neighbours; the points themselves
    count iff `m` is even, because a tie rounds to the even number. -/
def Parts.admits (p : Parts) (k : Int) (d : Nat) : Bool :=
  let (two, halves) := ratio 2 (p.q - 2)
  let (ten, tenths) := ratio 10 k
  let low := (4 * p.m - if p.narrowBelow then 1 else 2) * two * tenths
  let high := (4 * p.m + 2) * two * tenths
  let here := d * ten * halves
  if p.m % 2 = 0 then low ≤ here && here ≤ high else low < here && here < high

/-- The larger part of the number on the grid `10 ^ k`: the count of whole steps below it. -/
def Parts.floorAt (p : Parts) (k : Int) : Nat :=
  let (two, halves) := ratio 2 p.q
  let (ten, tenths) := ratio 10 k
  p.m * two * tenths / (ten * halves)

/-- The upper neighbour on the grid is nearer than the lower one, or as near and even. -/
def Parts.nearerAbove (p : Parts) (k : Int) : Bool :=
  let (two, halves) := ratio 2 p.q
  let (ten, tenths) := ratio 10 k
  let d := p.floorAt k
  let here := 2 * p.m * two * tenths
  let middle := (2 * d + 1) * ten * halves
  middle < here || (middle == here && d % 2 == 1)

/-- The exponent of the leading decimal digit. -/
def Parts.magnitude (p : Parts) : Int :=
  let guess := ((p.m.log2 + p.q) * 30103) / 100000
  if p.floorAt guess = 0 then guess - 1
  else if 10 ≤ p.floorAt guess then guess + 1
  else guess

/-- The number's decimal on the grid `10 ^ k`, if one of its two neighbours there rounds to it. -/
def Parts.onGrid? (p : Parts) (k : Int) : Option Nat :=
  let d := p.floorAt k
  match p.admits k d, p.admits k (d + 1) with
  | true, true => some (if p.nearerAbove k then d + 1 else d)
  | true, false => some d
  | false, true => some (d + 1)
  | false, false => none

/-- A number without trailing zeros, and how many it had. -/
def dropZeros : Nat → Nat → Nat × Nat
  | 0, d => (d, 0)
  | fuel + 1, d =>
    if d ≠ 0 ∧ d % 10 = 0 then
      let (e, n) := dropZeros fuel (d / 10)
      (e, n + 1)
    else (d, 0)

/-- The shortest decimal `d · 10 ^ k`: the first grid with a hit, from one digit upwards; seventeen
    digits always suffice. -/
def Parts.shortest (p : Parts) : Nat × Int :=
  if p.m = 0 then (0, 0)
  else
    let top := p.magnitude
    let hit := (List.range 17).findSome? fun (i : Nat) =>
      (p.onGrid? (top - (i : Int))).map fun d => (d, top - (i : Int))
    match hit with
    | some (d, k) => let (e, n) := dropZeros 18 d; (e, k + n)
    | none => (p.floorAt (top - 17), top - 17)

/-! ### Writing -/

/-- The decisions of a format: positional text is used while the leading digit's exponent lies in
    `positionalFrom ..< positionalTo`, and a positive exponent may carry a sign. -/
structure Layout where
  positionalFrom : Int
  positionalTo : Int
  plusSign : Bool
deriving DecidableEq, Repr

/-- The decimal digits of a number, most significant first. -/
def digits (n : Nat) : List Char := Nat.toDigits 10 n

/-- The exponent part of a number in scientific text. -/
def Layout.exponent (layout : Layout) (e : Int) : List Char :=
  'e' :: (if e < 0 then ['-'] else if layout.plusSign then ['+'] else []) ++ digits e.natAbs

/-- The text of `ds · 10 ^ k`, where `ds` are digits; positional text keeps at least one decimal. -/
def Layout.writeDigits (layout : Layout) (ds : List Char) (k : Int) : List Char :=
  let top := k + ds.length - 1
  if layout.positionalFrom ≤ top ∧ top < layout.positionalTo then
    if 0 ≤ k then ds ++ List.replicate k.toNat '0' ++ ['.', '0']
    else if 0 ≤ top then ds.take (top.toNat + 1) ++ '.' :: ds.drop (top.toNat + 1)
    else '0' :: '.' :: List.replicate (-top - 1).toNat '0' ++ ds
  else
    match ds with
    | [] => []
    | [d] => d :: layout.exponent top
    | d :: rest => d :: '.' :: rest ++ layout.exponent top

/-- The text of a finite double: a minus sign also on the negative zero, then its shortest
    decimal. -/
def Layout.write (layout : Layout) (x : Float) : List Char :=
  let p := Parts.ofFloat x
  let (d, k) := p.shortest
  (if p.negative then ['-'] else []) ++
    (if d = 0 then ['0', '.', '0'] else layout.writeDigits (digits d) k)

end SecurityScan.Decimal
