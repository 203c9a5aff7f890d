import StoredRoutine.Decimal.Layout
import StoredRoutine.Decimal.Reading
import StoredRoutine.Text.Hex

/-!
# `StoredRoutine.Script.Number`: the numbers of scripts

A number is a word of sixty-four bits or a double, and the two are told apart: `1` and `1.0` are
equal but print differently. Words wrap around. A double that is no number keeps a sign, which
only its text shows: an operation that has no result gives the negative one.
-/

set_option autoImplicit false

namespace StoredRoutine.Script

open Decimal

/-- A number. The constructor `float` is for doubles other than NaN. -/
inductive Number where
  | int (value : Int64)
  | float (value : Float)
  | nan (negative : Bool)
  deriving Repr, Inhabited

namespace Number

/-- The number that an operation on doubles gives. -/
def ofFloat (x : Float) : Number := if x.isNaN then .nan true else .float x

/-- The double nearest to a number. -/
def toFloat : Number → Float
  | .int n => nearestFloat (n < 0) n.toInt.natAbs 1
  | .float x => x
  | .nan _ => Float.ofBits 0x7ff8000000000000

/-- Whether a number is a word. -/
def isInt : Number → Bool
  | .int _ => true
  | _ => false

/-- The word of a whole number, if it fits one. -/
def intOfWhole? (n : Int) : Option Int64 :=
  if -(2 ^ 63) ≤ n ∧ n < 2 ^ 63 then some (Int64.ofInt n) else none

/-- The word that equals a number. -/
def toInt64? : Number → Option Int64
  | .int n => some n
  | .float x => (Binary.ofFloat x).toInt?.bind intOfWhole?
  | .nan _ => none

/-- The number as a table key: a double that equals a word is that word. -/
def normalized (n : Number) : Number :=
  match n.toInt64? with
  | some i => .int i
  | none => n

/-- The text of a number. -/
def display : Number → String
  | .int n => toString n.toInt
  | .float x => FloatStyle.script.render x
  | .nan negative => if negative then "-nan" else "nan"

/-! ### Parts of a double -/

/-- The greatest whole number not above a finite double. -/
def floorOf? (x : Float) : Option Int :=
  match Binary.ofFloat x with
  | .finite negative m e =>
    let signed : Int := if negative then -(m : Int) else m
    if 0 ≤ e then some (signed * 2 ^ e.toNat) else some (Int.fdiv signed (2 ^ (-e).toNat))
  | _ => none

/-- The least whole number not below a finite double. -/
def ceilOf? (x : Float) : Option Int := (floorOf? (-x)).map (- ·)

/-- The remainder of a division of doubles that goes toward zero, exactly. It has the sign of the
first. -/
def remainder (a b : Float) : Float :=
  match Binary.ofFloat a, Binary.ofFloat b with
  | .finite negative m e, .finite _ n f =>
    if n = 0 then Float.ofBits 0x7ff8000000000000
    else
      let low := min e f
      let r := m * 2 ^ (e - low).toNat % (n * 2 ^ (f - low).toNat)
      if 0 ≤ low then nearestFloat negative (r * 2 ^ low.toNat) 1
      else nearestFloat negative r (2 ^ (-low).toNat)
  | .finite .., .infinite _ => a
  | _, _ => Float.ofBits 0x7ff8000000000000

/-- The remainder of a division of doubles that goes down: it has the sign of the second. -/
def floorRemainder (a b : Float) : Float :=
  let r := remainder a b
  if (0 < r && b < 0) || (r < 0 && 0 < b) then r + b else r

/-! ### Arithmetic -/

/-- An operation on doubles. A NaN operand is the result, the first if both are. -/
def floatOp (op : Float → Float → Float) : Number → Number → Number
  | .nan s, _ => .nan s
  | _, .nan s => .nan s
  | a, b => ofFloat (op a.toFloat b.toFloat)

/-- An operation that stays in words when both operands are. -/
def mixedOp (ints : Int64 → Int64 → Int64) (floats : Float → Float → Float) :
    Number → Number → Number
  | .int a, .int b => .int (ints a b)
  | a, b => floatOp floats a b

def add : Number → Number → Number := mixedOp (· + ·) (· + ·)
def sub : Number → Number → Number := mixedOp (· - ·) (· - ·)
def mul : Number → Number → Number := mixedOp (· * ·) (· * ·)

/-- Division, always of doubles. -/
def div : Number → Number → Number := floatOp (· / ·)

/-- A power, always of doubles. A zeroth power is one, and so is a power of one. -/
def pow (a b : Number) : Number :=
  let x := a.toFloat
  let y := b.toFloat
  if y == 0 || x == 1 then .float 1 else floatOp Float.pow a b

/-- Division that goes down. Two words need a divisor other than zero. -/
def floorDiv? : Number → Number → Option Number
  | .int a, .int b =>
    if b = 0 then none else some (.int (Int64.ofInt (Int.fdiv a.toInt b.toInt)))
  | a, b => some (floatOp (fun x y => (x / y).floor) a b)

/-- The remainder of `floorDiv?`. -/
def floorMod? : Number → Number → Option Number
  | .int a, .int b =>
    if b = 0 then none else some (.int (Int64.ofInt (Int.fmod a.toInt b.toInt)))
  | a, b => some (floatOp floorRemainder a b)

/-- The number with the other sign. -/
def neg : Number → Number
  | .int n => .int (-n)
  | .float x => .float (-x)
  | .nan negative => .nan (!negative)

/-- Shifts a word to the left, filling with zeros; a negative count shifts to the right. -/
def shiftLeft (a b : Int64) : Int64 :=
  let word := a.toUInt64
  if b ≤ -64 ∨ 64 ≤ b then 0
  else if b < 0 then (word >>> (-b).toUInt64).toInt64
  else (word <<< b.toUInt64).toInt64

/-- Shifts a word to the right. -/
def shiftRight (a b : Int64) : Int64 := if b = Int64.minValue then 0 else shiftLeft a (-b)

/-! ### Order -/

/-- Whether two numbers are equal as real numbers. -/
def equal : Number → Number → Bool
  | .int a, .int b => a == b
  | .float x, .float y => x == y
  | .int a, .float y => Number.toInt64? (.float y) == some a
  | .float x, .int b => Number.toInt64? (.float x) == some b
  | _, _ => false

/-- Whether the first number is less, as real numbers. -/
def less : Number → Number → Bool
  | .int a, .int b => decide (a < b)
  | .float x, .float y => decide (x < y)
  | .int a, .float y =>
    match ceilOf? y with
    | some c => decide (a.toInt < c)
    | none => decide (0 < y)
  | .float x, .int b =>
    match floorOf? x with
    | some c => decide (c < b.toInt)
    | none => decide (x < 0)
  | _, _ => false

/-- Whether the first number is less or equal, as real numbers. -/
def lessEqual : Number → Number → Bool
  | .nan _, _ => false
  | _, .nan _ => false
  | a, b => !less b a

/-! ### Reading -/

/-- The blanks that a numeral may have around it. -/
def isSpace (c : Char) : Bool := c = ' ' || (9 ≤ c.toNat && c.toNat ≤ 13)

/-- Digits with at most one point among them: the digits before it and after it, and the rest. -/
def splitPoint (isDigit : Char → Bool) (cs : List Char) : List Char × List Char × List Char :=
  let whole := cs.takeWhile isDigit
  match cs.dropWhile isDigit with
  | '.' :: rest => (whole, rest.takeWhile isDigit, rest.dropWhile isDigit)
  | rest => (whole, [], rest)

/-- The value of hexadecimal digits. -/
def natOfHexDigits (ds : List Char) : Nat :=
  ds.foldl (fun acc c => 16 * acc + (Text.hexValue? c).getD 0) 0

/-- Whether a character is a hexadecimal digit. -/
def isHexDigit (c : Char) : Bool := (Text.hexValue? c).isSome

/-- A hexadecimal numeral after its mark. Without a point and an exponent it is a word and wraps. -/
def readHex? (negative : Bool) (cs : List Char) : Option Number :=
  let (whole, fraction, rest) := splitPoint isHexDigit cs
  if whole.isEmpty && fraction.isEmpty then none
  else
    match rest with
    | [] =>
      if cs.length = whole.length then
        let n := Int64.ofInt (natOfHexDigits whole)
        some (.int (if negative then -n else n))
      else some (scaled (natOfHexDigits (whole ++ fraction)) (-4 * (fraction.length : Int)))
    | c :: exponent =>
      if c = 'p' ∨ c = 'P' then
        (readInt? exponent).map fun e =>
          scaled (natOfHexDigits (whole ++ fraction)) (e - 4 * (fraction.length : Int))
      else none
where
  /-- The double nearest to `m * 2 ^ e`. Exponents out of any range are cut. -/
  scaled (m : Nat) (e : Int) : Number :=
    let e := max (-5000) (min 5000 e)
    .float (if 0 ≤ e then nearestFloat negative (m * 2 ^ e.toNat) 1
      else nearestFloat negative m (2 ^ (-e).toNat))

/-- A decimal numeral: a word if it is written as one and fits, a double otherwise. -/
def readDecimal? (negative : Bool) (cs : List Char) : Option Number :=
  let asFloat := (Literal.ofChars? cs).map fun l => Number.float (l.toFloat negative)
  if cs.isEmpty || !cs.all Char.isDigit then asFloat
  else
    let n : Int := natOfDigits cs
    match intOfWhole? (if negative then -n else n) with
    | some i => some (.int i)
    | none => asFloat

/-- A numeral without blanks and sign. -/
def readUnsigned? (negative : Bool) : List Char → Option Number
  | '0' :: 'x' :: rest => readHex? negative rest
  | '0' :: 'X' :: rest => readHex? negative rest
  | cs => readDecimal? negative cs

/-- The number that a text stands for; there may be blanks around it and a sign in front. -/
def read? (cs : List Char) : Option Number :=
  let body := ((cs.dropWhile isSpace).reverse.dropWhile isSpace).reverse
  match body with
  | '-' :: rest => readUnsigned? true rest
  | '+' :: rest => readUnsigned? false rest
  | rest => readUnsigned? false rest

end Number

end StoredRoutine.Script
