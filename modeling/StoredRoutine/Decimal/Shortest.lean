import StoredRoutine.Decimal.Binary

/-!
# `StoredRoutine.Decimal.Shortest`: the fewest digits that read back as the same double

A positive double is the middle of an interval of reals that all round to it. The ends belong to
the interval when the significand is even. Among the decimal grids, taken from coarse to fine, the
first one with a point inside the interval gives the digits; of two points the nearer is taken, and
an exact tie is settled by the caller. It is enough to look at the two neighbours of the number on
each grid: when any point of the grid lies inside the interval, one of them does.
-/

set_option autoImplicit false

namespace StoredRoutine.Decimal

/-- Which of two equally near decimals is written. -/
inductive Tie where
  /-- The one farther from zero. -/
  | away
  /-- The one whose last digit is even. -/
  | even
  deriving Repr, DecidableEq

/-- A positive decimal `digits * 10 ^ exponent`. -/
structure Digits where
  digits : Nat
  exponent : Int
  deriving Repr, DecidableEq

namespace Digits

/-- The decimal digits, most significant first. -/
def chars (d : Digits) : List Char := (toString d.digits).toList

/-- The place of the point: the number is `0.d₁d₂… * 10 ^ point`. -/
def point (d : Digits) : Int := (d.chars.length : Int) + d.exponent

/-- Drops zeros at the end of the digits, at most `fuel` of them. -/
def stripZeros : Nat → Digits → Digits
  | 0, d => d
  | fuel + 1, d =>
    if d.digits ≠ 0 ∧ d.digits % 10 = 0 then stripZeros fuel ⟨d.digits / 10, d.exponent + 1⟩ else d

end Digits

/-- The interval of reals that round to a positive double, over one common denominator. -/
structure RoundingInterval where
  low : Nat
  value : Nat
  high : Nat
  denominator : Nat
  /-- Whether the two ends round to the number as well. -/
  closed : Bool

namespace RoundingInterval

/-- The interval around `m * 2 ^ e`. Below a power of two the neighbour is half as far, unless the
exponent is the least one. -/
def around (m : Nat) (e : Int) : RoundingInterval :=
  let narrow : Bool := m == 2 ^ 52 && decide (-1074 < e)
  let lowQuarters := if narrow then 4 * m - 1 else 4 * m - 2
  let q : Int := e - 2
  if 0 ≤ q then
    ⟨lowQuarters * 2 ^ q.toNat, 4 * m * 2 ^ q.toNat, (4 * m + 2) * 2 ^ q.toNat, 1, m % 2 == 0⟩
  else ⟨lowQuarters, 4 * m, 4 * m + 2, 2 ^ (-q).toNat, m % 2 == 0⟩

/-- The least `p` with `value < 10 ^ p`, looked for upwards from a guess. -/
def pointFrom (i : RoundingInterval) : Nat → Int → Int
  | 0, p => p
  | fuel + 1, p =>
    let below : Bool :=
      if 0 ≤ p then decide (i.value < 10 ^ p.toNat * i.denominator)
      else decide (i.value * 10 ^ (-p).toNat < i.denominator)
    if below then p else i.pointFrom fuel (p + 1)

/-- The place of the decimal point of the value. The guess is from the binary logarithm and at
most two below the answer. -/
def point (i : RoundingInterval) : Int :=
  let bits : Int := (i.value.log2 : Int) - (i.denominator.log2 : Int)
  i.pointFrom 6 ((bits - 1) * 30103 / 100000 - 1)

/-- The neighbour of the value that the grid `10 ^ x` offers, if one lies in the interval. -/
def gridPoint? (i : RoundingInterval) (tie : Tie) (x : Int) : Option Nat :=
  -- Numerator and denominator of the value, and of the ends, in units of the grid.
  let unit := if 0 ≤ x then 10 ^ x.toNat * i.denominator else i.denominator
  let scale := if 0 ≤ x then 1 else 10 ^ (-x).toNat
  let v := i.value * scale
  let below := v / unit
  let above := below + 1
  let inside (k : Nat) : Bool :=
    let p := k * unit
    if i.closed then decide (i.low * scale ≤ p) && decide (p ≤ i.high * scale)
    else decide (i.low * scale < p) && decide (p < i.high * scale)
  match inside below && decide (0 < below), inside above with
  | true, true =>
    let down := v - below * unit
    let up := above * unit - v
    if down < up then some below
    else if up < down then some above
    else match tie with
      | .away => some above
      | .even => some (if below % 2 = 0 then below else above)
  | true, false => some below
  | false, true => some above
  | false, false => none

/-- Tries grids with one more digit at a time. -/
def search (i : RoundingInterval) (tie : Tie) (point : Int) : Nat → Nat → Digits
  | 0, count => ⟨i.value / i.denominator, count⟩
  | fuel + 1, count =>
    match i.gridPoint? tie (point - count) with
    | some k => Digits.stripZeros 20 ⟨k, point - count⟩
    | none => i.search tie point fuel (count + 1)

end RoundingInterval

/-- The fewest digits that read back as the positive double `m * 2 ^ e`. Seventeen always do. -/
def shortest (tie : Tie) (m : Nat) (e : Int) : Digits :=
  let i := RoundingInterval.around m e
  i.search tie i.point 18 1

/-- The value `m * 2 ^ e` rounded to `count` significant digits, ties to the even digit. -/
def significant (count : Nat) (m : Nat) (e : Int) : Digits :=
  let i := RoundingInterval.around m e
  let x := i.point - count
  let k :=
    if 0 ≤ x then divNearestEven i.value (10 ^ x.toNat * i.denominator)
    else divNearestEven (i.value * 10 ^ (-x).toNat) i.denominator
  Digits.stripZeros 20 ⟨k, x⟩

end StoredRoutine.Decimal
