import StoredRoutine.Instances

/-!
# `StoredRoutine.Text.Hex`: hexadecimal digits

Digits are written in lower case and read in either case.
-/

set_option autoImplicit false

namespace StoredRoutine.Text

/-- The lower-case digit of a number below sixteen. -/
def hexDigit (n : Nat) : Char := if n < 10 then Char.ofNat (48 + n) else Char.ofNat (87 + n)

/-- The value of a digit. -/
def hexValue? (c : Char) : Option Nat :=
  if '0' ≤ c ∧ c ≤ '9' then some (c.toNat - 48)
  else if 'a' ≤ c ∧ c ≤ 'f' then some (c.toNat - 87)
  else if 'A' ≤ c ∧ c ≤ 'F' then some (c.toNat - 55)
  else none

/-- The two digits of a byte. -/
def hexByte (b : UInt8) : List Char := [hexDigit (b.toNat / 16), hexDigit (b.toNat % 16)]

/-- The digits of bytes. -/
def hexBytes (bytes : List UInt8) : String := String.ofList (bytes.flatMap hexByte)

/-- Reads bytes, two digits each. -/
def readHexBytes? : List Char → Option (List UInt8)
  | [] => some []
  | a :: b :: rest => do
    let x ← hexValue? a
    let y ← hexValue? b
    return UInt8.ofNat (16 * x + y) :: (← readHexBytes? rest)
  | [_] => none

/-- The lowest digits of a number, as many as asked for. -/
def hexNat (width n : Nat) : String :=
  String.ofList ((List.range width).map fun i => hexDigit (n / 16 ^ (width - 1 - i) % 16))

/-- Reads a number. -/
def readHexNat? (digits : List Char) : Option Nat :=
  digits.foldlM (fun acc c => (hexValue? c).map (16 * acc + ·)) 0

/-- Reading the digit of a number gives the number back. -/
theorem hexValue?_hexDigit {n : Nat} (h : n < 16) : hexValue? (hexDigit n) = some n := by
  have key : ∀ m : Fin 16, hexValue? (hexDigit m.val) = some m.val := by decide
  exact key ⟨n, h⟩

end StoredRoutine.Text
