import StoredRoutine.Decimal.Reading
import StoredRoutine.Failure
import StoredRoutine.Text.Blank

/-!
# `StoredRoutine.Numeric`: exact decimals in canonical text

A numeric value is kept as its canonical text: a minus sign only in front of a number that is not
zero, one integer digit at least and no superfluous leading zero, and as many fraction digits as
its scale says. Input reads a literal exactly; under a modifier `numeric(p, s)` the value is
rounded half away from zero to `s` places and has to fit `p - s` integer digits.
-/

set_option autoImplicit false

namespace StoredRoutine.Numeric

/-- The precision and scale that a type modifier asks for. -/
structure Modifier where
  precision : Nat
  scale : Nat
  deriving Repr, DecidableEq

/-- The greatest scale that is kept. -/
def maxScale : Nat := 1000

/-- The greatest absolute value of an exponent in a literal. -/
def maxExponent : Nat := 1000

/-- The modifier in a type modifier: precision above, scale in the low sixteen bits, and an offset
of four. Smaller numbers stand for none. -/
def Modifier.ofTypeMod? (typeMod : Int32) : Option Modifier :=
  if typeMod < 4 then none
  else
    let packed := (typeMod.toInt - 4).toNat
    some { precision := packed / 2 ^ 16 % 2 ^ 16, scale := min (packed % 2 ^ 16) maxScale }

/-- The type modifier of `numeric(precision, scale)`. -/
def typeMod (precision scale : Int32) : Int32 := ((precision <<< 16) ||| scale) + 4

/-- The failure for a text that is no literal. -/
def invalid (text : String) : Failure :=
  .conversion s!"invalid input syntax for type numeric: \"{text}\""

/-- The failure for an exponent out of range. -/
def overflow : Failure := .conversion "value overflows numeric format"

/-- The failure for a value that does not fit its modifier. -/
def fieldOverflow (m : Modifier) : Failure :=
  .conversion
    (s!"numeric field overflow: a field with precision {m.precision}, scale {m.scale} "
      ++ s!"must round to an absolute value less than 10^{m.precision - m.scale}")

/-- The number of decimal digits of a number, none for zero. -/
def digitCount (n : Nat) : Nat := if n = 0 then 0 else (toString n).length

/-- The canonical text of `units / 10 ^ scale` with a sign. -/
def render (negative : Bool) (units scale : Nat) : String :=
  let whole := toString (units / 10 ^ scale)
  let digits := (toString (units % 10 ^ scale)).toList
  let fraction :=
    if scale = 0 then [] else '.' :: (List.replicate (scale - digits.length) '0' ++ digits)
  (if negative ∧ units ≠ 0 then "-" else "") ++ whole ++ String.ofList fraction

/-- Moves a number of units from one scale to another; places that are lost are rounded, a half
away from zero. -/
def rescale (units natural scale : Nat) : Nat :=
  if scale < natural then
    let unit := 10 ^ (natural - scale)
    units / unit + if unit ≤ 2 * (units % unit) then 1 else 0
  else units * 10 ^ (scale - natural)

/-- Splits a text before its first exponent letter. -/
def splitExponent (cs : List Char) : List Char × Option (List Char) :=
  let isLetter (c : Char) : Bool := c = 'e' ∨ c = 'E'
  match cs.dropWhile fun c => !isLetter c with
  | [] => (cs, none)
  | _ :: rest => (cs.takeWhile fun c => !isLetter c, some rest)

/-- The exponent of a literal, a whole number of thirty-two bits. -/
def exponent? : Option (List Char) → Option Int
  | none => some 0
  | some cs => (Decimal.readInt? cs).filter fun e => -(2 ^ 31) ≤ e ∧ e < 2 ^ 31

/-- The canonical text of a literal, under a type modifier. -/
def ofText (text : String) (typeMod : Int32) : Outcome String :=
  let trimmed := Text.trim text
  if Text.foldCase trimmed = "nan" then .ok "NaN"
  else
    let (negative, body) := Decimal.splitSign trimmed.toList
    let (mantissa, exponentText) := splitExponent body
    match exponent? exponentText with
    | none => .error (invalid text)
    | some exponent =>
      if maxExponent < exponent.natAbs then .error overflow
      else
        let whole := mantissa.takeWhile fun c => c ≠ '.'
        let fraction := (mantissa.dropWhile fun c => c ≠ '.').drop 1
        let digits := whole ++ fraction
        if digits.isEmpty || !digits.all Char.isDigit then .error (invalid text)
        else
          -- The literal is `n * 10 ^ (exponent - fraction.length)`.
          let places : Int := fraction.length - exponent
          let natural := places.toNat
          let units := Decimal.natOfDigits digits * 10 ^ (-places).toNat
          match Modifier.ofTypeMod? typeMod with
          | none => .ok (render negative units natural)
          | some m =>
            let rounded := rescale units natural m.scale
            if m.precision < digitCount (rounded / 10 ^ m.scale) + m.scale then
              .error (fieldOverflow m)
            else .ok (render negative rounded m.scale)

end StoredRoutine.Numeric
