/-!
# `StoredRoutine.Text.Blank`: blanks at the ends of a text, and ASCII case

Text forms of values and names are read after the blanks around them are taken off. A blank is a
character with the Unicode property White_Space; there are twenty-five of them. Letters are folded
in the ASCII range only.
-/

set_option autoImplicit false

namespace StoredRoutine.Text

/-- The ranges of code points with the property White_Space, both ends included. -/
def blankRanges : List (Nat × Nat) :=
  [(0x09, 0x0D), (0x20, 0x20), (0x85, 0x85), (0xA0, 0xA0), (0x1680, 0x1680), (0x2000, 0x200A),
    (0x2028, 0x2029), (0x202F, 0x202F), (0x205F, 0x205F), (0x3000, 0x3000)]

/-- Whether a character is a blank. -/
def isBlank (c : Char) : Bool :=
  blankRanges.any fun r => r.1 ≤ c.toNat && c.toNat ≤ r.2

/-- The text without the blanks at its two ends. -/
def trimBlanks (cs : List Char) : List Char :=
  ((cs.dropWhile isBlank).reverse.dropWhile isBlank).reverse

/-- The text without the blanks at its two ends. -/
def trim (s : String) : String := String.ofList (trimBlanks s.toList)

/-- Folds the letters `A` to `Z` to lower case and leaves every other character. -/
def foldCase (s : String) : String := String.ofList (s.toList.map Char.toLower)

/-- Every blank of the ASCII range that core calls white space is a blank here. -/
theorem isBlank_of_isWhitespace {c : Char} (h : c.isWhitespace = true) : isBlank c = true := by
  simp only [Char.isWhitespace, Bool.or_eq_true, decide_eq_true_eq] at h
  rcases h with ((h | h) | h) | h <;> subst h <;> decide

end StoredRoutine.Text
