import StoredRoutine.Decimal.Shortest

/-!
# `StoredRoutine.Decimal.Layout`: how doubles are written

Which digits a double has is one question, how they are laid out is another. `FloatStyle` holds
every decision of the second kind, and the three styles of this library are values of it:

* `FloatStyle.plain`, the text form of relational floats: positional at any size;
* `FloatStyle.document`, the form of numbers in json documents;
* `FloatStyle.script`, fourteen significant digits, the form scripts print.
-/

set_option autoImplicit false

namespace StoredRoutine.Decimal

/-- How many digits are written. -/
inductive DigitCount where
  /-- The fewest digits that read back, a tie between two of them settled as given. -/
  | fewest (tie : Tie)
  /-- A fixed number of significant digits, less the zeros at the end. -/
  | significant (count : Nat)
  deriving Repr

/-- Every decision on the layout of a double. -/
structure FloatStyle where
  count : DigitCount
  /-- The least and the greatest place of the point that is written positionally, if bounded. -/
  positional : Option (Int × Int)
  /-- Whether a whole number keeps a point and a zero. -/
  wholePoint : Bool
  /-- Whether a positive exponent has a sign. -/
  exponentPlus : Bool
  /-- The least number of digits of an exponent. -/
  exponentWidth : Nat
  nan : String
  infinity : String

namespace FloatStyle

/-- Relational floats are positional at any size, without a point when whole. -/
def plain : FloatStyle :=
  ⟨.fewest .away, none, false, false, 1, "NaN", "Infinity"⟩

/-- Numbers of a json document are positional from five places after the point to sixteen before
it, keep `.0` when whole, and have a signed exponent otherwise. -/
def document : FloatStyle :=
  ⟨.fewest .even, some (-4, 16), true, true, 1, "null", "null"⟩

/-- Scripts print fourteen significant digits, positional from `0.0001` up to `10 ^ 14`, and a
signed exponent of two digits or more. A whole number shows `.0`, so that it differs from the
integer of the same value. -/
def script : FloatStyle :=
  ⟨.significant 14, some (-3, 14), true, true, 2, "nan", "inf"⟩

end FloatStyle

/-- The digits with the point in its place. -/
def positionalChars (wholePoint : Bool) (digits : List Char) (point : Int) : List Char :=
  if point ≤ 0 then '0' :: '.' :: (List.replicate (-point).toNat '0' ++ digits)
  else
    let places := point.toNat
    if digits.length ≤ places then
      let whole := digits ++ List.replicate (places - digits.length) '0'
      if wholePoint then whole ++ ['.', '0'] else whole
    else digits.take places ++ '.' :: digits.drop places

/-- The exponent with its sign and its least width. -/
def exponentChars (style : FloatStyle) (e : Int) : List Char :=
  let digits := (toString e.natAbs).toList
  let padded := List.replicate (style.exponentWidth - digits.length) '0' ++ digits
  if e < 0 then '-' :: padded else if style.exponentPlus then '+' :: padded else padded

/-- One digit, the others after a point, and the exponent. -/
def scientificChars (style : FloatStyle) (digits : List Char) (point : Int) : List Char :=
  let mantissa :=
    match digits with
    | [] => []
    | [d] => [d]
    | d :: rest => d :: '.' :: rest
  mantissa ++ 'e' :: exponentChars style (point - 1)

/-- A positive number in the given style. -/
def FloatStyle.positive (style : FloatStyle) (m : Nat) (e : Int) : List Char :=
  let d :=
    match style.count with
    | .fewest tie => shortest tie m e
    | .significant count => significant count m e
  match style.positional with
  | none => positionalChars style.wholePoint d.chars d.point
  | some (least, greatest) =>
    if least ≤ d.point ∧ d.point ≤ greatest then
      positionalChars style.wholePoint d.chars d.point
    else scientificChars style d.chars d.point

/-- The text of a double in the given style. -/
def FloatStyle.render (style : FloatStyle) (x : Float) : String :=
  match Binary.ofFloat x with
  | .nan => style.nan
  | .infinite negative => if negative then "-" ++ style.infinity else style.infinity
  | .finite negative m e =>
    let text :=
      if m = 0 then '0' :: (if style.wholePoint then ['.', '0'] else [])
      else style.positive m e
    String.ofList (if negative then '-' :: text else text)

end StoredRoutine.Decimal
