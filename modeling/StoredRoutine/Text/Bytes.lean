/-!
# `StoredRoutine.Text.Bytes`: texts and strings of bytes

Strings of scripts are bytes that need not be a text. A byte can be looked at as the character of
the same number, which is how script sources are read. Where a text is needed and the bytes are
not one, each part that can be no character is shown as one replacement character.
-/

set_option autoImplicit false

namespace StoredRoutine.Text

/-- The bytes as characters of the same numbers. -/
def byteChars (b : ByteArray) : List Char := b.data.toList.map fun x => Char.ofNat x.toNat

/-- The bytes whose numbers are those of the characters. -/
def bytesOfChars (cs : List Char) : ByteArray := ⟨(cs.map fun c => UInt8.ofNat c.toNat).toArray⟩

/-- The character that stands for bytes that are none. -/
def replacement : Char := Char.ofNat 0xFFFD

/-- For a byte that starts a character of more than one byte: the number of bytes that follow, the
bits it contributes, and the least and greatest byte that may come next. -/
def leadByte? (b : UInt8) : Option (Nat × Nat × UInt8 × UInt8) :=
  let n := b.toNat
  if 0xC2 ≤ n ∧ n ≤ 0xDF then some (1, n - 0xC0, 0x80, 0xBF)
  else if n = 0xE0 then some (2, 0, 0xA0, 0xBF)
  else if n = 0xED then some (2, 13, 0x80, 0x9F)
  else if 0xE1 ≤ n ∧ n ≤ 0xEF then some (2, n - 0xE0, 0x80, 0xBF)
  else if n = 0xF0 then some (3, 0, 0x90, 0xBF)
  else if 0xF1 ≤ n ∧ n ≤ 0xF3 then some (3, n - 0xF0, 0x80, 0xBF)
  else if n = 0xF4 then some (3, 4, 0x80, 0x8F)
  else none

/-- Reads on inside a character: `count` bytes are missing, the next one has to lie between `low`
and `high`. Answers the character and the rest. When the bytes break off, the character is the
replacement and the rest starts at the byte that does not fit. -/
def decodeTail : Nat → Nat → UInt8 → UInt8 → List UInt8 → Char × List UInt8
  | 0, value, _, _, rest => (Char.ofNat value, rest)
  | _ + 1, _, _, _, [] => (replacement, [])
  | count + 1, value, low, high, b :: rest =>
    if low ≤ b ∧ b ≤ high then decodeTail count (64 * value + b.toNat % 64) 0x80 0xBF rest
    else (replacement, b :: rest)

/-- The rest that `decodeTail` leaves is no longer than what it was given. -/
theorem length_decodeTail_le (count value : Nat) (low high : UInt8) (bytes : List UInt8) :
    (decodeTail count value low high bytes).2.length ≤ bytes.length := by
  fun_induction decodeTail count value low high bytes with
  | case3 _ _ _ _ _ _ _ ih => exact Nat.le_succ_of_le ih
  | _ => exact Nat.le_refl _

/-- The text of bytes, with the replacement character for what is no character. -/
def decode (bytes : List UInt8) : List Char :=
  match bytes with
  | [] => []
  | b :: rest =>
    if b < 0x80 then Char.ofNat b.toNat :: decode rest
    else
      match leadByte? b with
      | none => replacement :: decode rest
      | some (count, value, low, high) =>
        let tail := decodeTail count value low high rest
        tail.1 :: decode tail.2
termination_by bytes.length
decreasing_by
  all_goals simp only [List.length_cons]
  · omega
  · omega
  · exact Nat.lt_succ_of_le (length_decodeTail_le ..)

/-- The text of bytes, with the replacement character for what is no character. -/
def display (b : ByteArray) : String := String.ofList (decode b.data.toList)

end StoredRoutine.Text
