import StoredRoutine.Instances

/-!
# `StoredRoutine.Decimal.Binary`: double precision numbers as exact fractions

A finite double is `m * 2 ^ e` with `m` below `2 ^ 53`. This module reads those two numbers off the
sixty-four bits, and goes the other way: the double nearest to a fraction of natural numbers, with
ties to the even significand. Everything is exact arithmetic on `Nat`, so the results can be
reasoned about without the machine's floating point unit.
-/

set_option autoImplicit false

namespace StoredRoutine.Decimal

/-- What the bits of a double say. A finite number is `significand * 2 ^ exponent` with a sign. -/
inductive Binary where
  | nan
  | infinite (negative : Bool)
  | finite (negative : Bool) (significand : Nat) (exponent : Int)
  deriving Repr, DecidableEq

namespace Binary

/-- Splits the bits of a double into sign, significand and exponent. -/
def ofBits (bits : UInt64) : Binary :=
  let n : Nat := bits.toNat
  let negative := n / 2 ^ 63 == 1
  let biased : Nat := n / 2 ^ 52 % 2 ^ 11
  let fraction : Nat := n % 2 ^ 52
  if biased = 2047 then
    if fraction = 0 then .infinite negative else .nan
  else if biased = 0 then .finite negative fraction (-1074)
  else .finite negative (fraction + 2 ^ 52) ((biased : Int) - 1075)

/-- The exact parts of a double. -/
def ofFloat (x : Float) : Binary := ofBits x.toBits

/-- The integer a double holds exactly, if it is finite and whole. -/
def toInt? : Binary → Option Int
  | .finite negative m e =>
    let magnitude : Option Nat :=
      if 0 ≤ e then some (m * 2 ^ e.toNat)
      else if m % 2 ^ (-e).toNat = 0 then some (m / 2 ^ (-e).toNat)
      else none
    magnitude.map fun k => if negative then -(k : Int) else (k : Int)
  | _ => none

/-- Whether the number is finite. -/
def isFinite : Binary → Bool
  | .finite .. => true
  | _ => false

end Binary

/-- The quotient `n / d` rounded to the nearest natural number, a tie to the even one. -/
def divNearestEven (n d : Nat) : Nat :=
  let q := n / d
  let r := n % d
  if d < 2 * r then q + 1
  else if 2 * r = d then (if q % 2 = 1 then q + 1 else q)
  else q

/-- The bits of the positive double `m * 2 ^ q`, where `m` has at most 53 bits and fewer only when
`q` is the least exponent. Above the range the bits are those of infinity. -/
def packBits (m : Nat) (q : Int) : Nat :=
  if 971 < q then 2047 * 2 ^ 52
  else if m < 2 ^ 52 then m
  else (q + 1075).toNat * 2 ^ 52 + (m - 2 ^ 52)

/-- The double nearest to `n / d`, ties to even, as bits of a number without a sign. -/
def nearestBits (n d : Nat) : Nat :=
  if n = 0 then 0
  else
    let low : Int := (n.log2 : Int) - (d.log2 : Int) - 53
    -- The quotient `n / (d * 2 ^ low)` lies between `2 ^ 52` and `2 ^ 54`.
    let scaled (q : Int) : Nat × Nat :=
      if 0 ≤ q then (n, d * 2 ^ q.toNat) else (n * 2 ^ (-q).toNat, d)
    let exact : Int :=
      let s := scaled low
      if 2 ^ 53 * s.2 ≤ s.1 then low + 1 else low
    let q : Int := if exact < -1074 then -1074 else exact
    let s := scaled q
    let m := divNearestEven s.1 s.2
    if m = 2 ^ 53 then packBits (2 ^ 52) (q + 1) else packBits m q

/-- The double nearest to the fraction `n / d` with the given sign. -/
def nearestFloat (negative : Bool) (n d : Nat) : Float :=
  let bits := nearestBits n d
  Float.ofBits (UInt64.ofNat (if negative then bits + 2 ^ 63 else bits))

/-- The double nearest to `m * 10 ^ e`. Exponents so large or so small that no digit can matter are
answered without computing the power. -/
def nearestDecimal (negative : Bool) (m : Nat) (e : Int) : Float :=
  let magnitude : Int := (m.log2 : Int) / 4 + e
  if m = 0 then nearestFloat negative 0 1
  else if 400 < magnitude then nearestFloat negative (2 ^ 1025) 1
  else if (m.log2 : Int) + e < -400 then nearestFloat negative 0 1
  else if 0 ≤ e then nearestFloat negative (m * 10 ^ e.toNat) 1
  else nearestFloat negative m (10 ^ (-e).toNat)

end StoredRoutine.Decimal
