import StoredRoutine.Decimal.Binary

/-!
# `StoredRoutine.Decimal.Reading`: decimal literals

A decimal literal is an optional sign, decimal digits with at most one point among them and at
least one digit in all, and optionally an exponent. This module splits a text into those parts and
reads it as the nearest double. It also reads plain integers, sign first.
-/

set_option autoImplicit false

namespace StoredRoutine.Decimal

/-- The value of a word of decimal digits. -/
def natOfDigits (ds : List Char) : Nat :=
  ds.foldl (fun acc d => 10 * acc + (d.toNat - '0'.toNat)) 0

/-- Takes a sign off the front of a text; the flag is set for a minus. -/
def splitSign : List Char → Bool × List Char
  | '-' :: rest => (true, rest)
  | '+' :: rest => (false, rest)
  | cs => (false, cs)

/-- The longest word of digits at the front, and the rest. -/
def splitDigits (cs : List Char) : List Char × List Char :=
  (cs.takeWhile Char.isDigit, cs.dropWhile Char.isDigit)

/-- An integer: an optional sign and at least one digit, and nothing else. -/
def readInt? (cs : List Char) : Option Int :=
  let (negative, digits) := splitSign cs
  if digits.isEmpty || !digits.all Char.isDigit then none
  else if negative then some (-(natOfDigits digits : Int)) else some (natOfDigits digits : Int)

/-- The parts of a literal: the digits before and after the point, and the exponent. -/
structure Literal where
  whole : List Char
  fraction : List Char
  exponent : Int
  deriving Repr, DecidableEq

/-- The exponent after its letter, which has to be the rest of the text. -/
def readExponent? : List Char → Option Int
  | [] => some 0
  | c :: rest => if c = 'e' ∨ c = 'E' then readInt? rest else none

/-- An unsigned literal, the whole of the text. -/
def Literal.ofChars? (cs : List Char) : Option Literal :=
  let (whole, rest) := splitDigits cs
  let (fraction, rest) :=
    match rest with
    | '.' :: rest => splitDigits rest
    | rest => ([], rest)
  if whole.isEmpty && fraction.isEmpty then none
  else (readExponent? rest).map fun e => ⟨whole, fraction, e⟩

/-- The double nearest to a literal. -/
def Literal.toFloat (negative : Bool) (l : Literal) : Float :=
  nearestDecimal negative (natOfDigits (l.whole ++ l.fraction)) (l.exponent - l.fraction.length)

/-- A double from a text in lower case: a literal with an optional sign, or one of the words for
not-a-number and infinity. -/
def readFloat? (cs : List Char) : Option Float :=
  let (negative, body) := splitSign cs
  let word := String.ofList body
  if word = "nan" then some (Float.ofBits 0x7ff8000000000000)
  else if word = "inf" ∨ word = "infinity" then
    some (Float.ofBits (if negative then 0xfff0000000000000 else 0x7ff0000000000000))
  else (Literal.ofChars? body).map (·.toFloat negative)

end StoredRoutine.Decimal
