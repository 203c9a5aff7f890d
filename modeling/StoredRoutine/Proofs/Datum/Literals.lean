import Mathlib.Data.List.TakeWhile
import StoredRoutine.Proofs.Datum.Numeric

/-!
# `StoredRoutine.Proofs.Datum.Literals`: the literals of exact decimals

A literal is an optional sign, digits with at most one point among them and at least one digit in
all, and optionally an exponent after its letter. The structure `Numeric.Literal` carries what a
literal has to satisfy, so that it can be spelled (`Literal.chars`) without further conditions.
`Numeric.ofText` takes a text apart by looking for the letter, the point and the sign:

* `ofText_literal`: of a text that spells a literal, it finds the parts of the literal, and goes on
  with the units and places that these make;
* `spells_of_ofText`: a text that it accepts spells a literal, or is not a number.
-/

set_option autoImplicit false

namespace StoredRoutine

/-! ### Signs and whole numbers -/

namespace Decimal

/-- The sign in front of a number, which need not be written. -/
inductive Sign where
  | unwritten
  | plus
  | minus
  deriving DecidableEq

namespace Sign

/-- The characters of a sign. -/
def chars : Sign → List Char
  | .unwritten => []
  | .plus => ['+']
  | .minus => ['-']

/-- Whether a sign is a minus. -/
def negative : Sign → Bool
  | .minus => true
  | _ => false

/-- The number that a sign multiplies by. -/
def factor (s : Sign) : Int := if s.negative then -1 else 1

end Sign

/-- A sign is taken off in front of what does not begin with another one. -/
theorem splitSign_append (sign : Sign) {rest : List Char}
    (hrest : ∀ c ∈ rest.head?, c ≠ '+' ∧ c ≠ '-') :
    splitSign (sign.chars ++ rest) = (sign.negative, rest) := by
  cases sign with
  | plus | minus => rfl
  | unwritten =>
    cases rest with
    | nil => rfl
    | cons c rest =>
      obtain ⟨hplus, hminus⟩ := hrest c rfl
      show splitSign (c :: rest) = (false, c :: rest)
      unfold splitSign
      split
      next heq => exact absurd (List.cons.inj heq).1 hminus
      next heq => exact absurd (List.cons.inj heq).1 hplus
      · rfl

/-- What is taken off in front is a sign. -/
theorem exists_sign (cs : List Char) :
    ∃ sign : Sign, cs = sign.chars ++ (splitSign cs).2 ∧ (splitSign cs).1 = sign.negative := by
  unfold splitSign
  split
  · exact ⟨.minus, rfl, rfl⟩
  · exact ⟨.plus, rfl, rfl⟩
  · exact ⟨.unwritten, rfl, rfl⟩

theorem not_sign_of_isDigit {c : Char} (hc : c.isDigit = true) : c ≠ '+' ∧ c ≠ '-' := by
  constructor <;> rintro rfl <;> exact absurd hc (by decide)

/-- The value of digits, as the core library has it. -/
theorem natOfDigits_eq (ds : List Char) : natOfDigits ds = Nat.ofDigitChars 10 ds 0 := rfl

/-- A whole number is read from its sign and digits. -/
theorem readInt?_append (sign : Sign) {digits : List Char} (hne : digits ≠ [])
    (hdigits : ∀ c ∈ digits, c.isDigit = true) :
    readInt? (sign.chars ++ digits) = some (sign.factor * Nat.ofDigitChars 10 digits 0) := by
  have hhead : ∀ c ∈ digits.head?, c ≠ '+' ∧ c ≠ '-' := fun c hc =>
    not_sign_of_isDigit (hdigits c (List.mem_of_mem_head? hc))
  have hform : (digits.isEmpty || !digits.all Char.isDigit) = false := by
    simp [hne, List.all_eq_true.mpr hdigits]
  unfold readInt? Sign.factor
  rw [splitSign_append sign hhead]
  simp only [hform, natOfDigits_eq, Bool.false_eq_true, if_false]
  cases sign.negative <;> simp

/-- What is read as a whole number is a sign and digits. -/
theorem eq_append_of_readInt? {cs : List Char} {n : Int} (h : readInt? cs = some n) :
    ∃ (sign : Sign) (digits : List Char), cs = sign.chars ++ digits ∧ digits ≠ [] ∧
      ∀ c ∈ digits, c.isDigit = true := by
  obtain ⟨sign, hcs, -⟩ := exists_sign cs
  unfold readInt? at h
  simp only at h
  split at h
  · exact nomatch h
  next hform =>
    simp only [Bool.or_eq_true, not_or, Bool.not_eq_true, Bool.not_eq_false'] at hform
    exact ⟨sign, _, hcs, by simpa using hform.1, List.all_eq_true.mp hform.2⟩

end Decimal

namespace Numeric

open Decimal (Sign splitSign splitSign_append exists_sign not_sign_of_isDigit readInt?_append
  eq_append_of_readInt? natOfDigits_eq)

/-! ### Literals -/

/-- An exponent: the letter, a sign and digits. -/
structure ExponentPart where
  letter : Char
  sign : Sign
  digits : List Char
  isLetter : letter = 'e' ∨ letter = 'E'
  ne_nil : digits ≠ []
  isDigit : ∀ c ∈ digits, c.isDigit = true

/-- A decimal literal. -/
structure Literal where
  sign : Sign
  /-- The digits before the point. -/
  whole : List Char
  /-- The digits after the point, when there is one. -/
  fraction : Option (List Char)
  exponent : Option ExponentPart
  ne_nil : whole ++ fraction.getD [] ≠ []
  isDigit : ∀ c ∈ whole ++ fraction.getD [], c.isDigit = true

namespace ExponentPart

/-- The characters after the letter. -/
def chars (e : ExponentPart) : List Char := e.sign.chars ++ e.digits

/-- The power of ten that an exponent stands for. -/
def power (e : ExponentPart) : Int := e.sign.factor * Nat.ofDigitChars 10 e.digits 0

end ExponentPart

namespace Literal

/-- The digits and the point. -/
def mantissa (l : Literal) : List Char :=
  l.whole ++ match l.fraction with
    | none => []
    | some fraction => '.' :: fraction

/-- The characters after the sign. -/
def body (l : Literal) : List Char :=
  l.mantissa ++ match l.exponent with
    | none => []
    | some e => e.letter :: e.chars

/-- The characters of a literal. -/
def chars (l : Literal) : List Char := l.sign.chars ++ l.body

/-- All the digits, without the point. -/
def digits (l : Literal) : List Char := l.whole ++ l.fraction.getD []

/-- The power of ten that the exponent stands for. -/
def power (l : Literal) : Int :=
  match l.exponent with
  | none => 0
  | some e => e.power

/-- How far the point stands in front of the end of the digits once the exponent has moved it; less
than nothing when it stands behind. -/
def places (l : Literal) : Int := (l.fraction.getD []).length - l.power

/-- The scale that the literal has by itself. -/
def scale (l : Literal) : Nat := l.places.toNat

/-- The literal as a number of units of its scale. -/
def units (l : Literal) : Nat := Nat.ofDigitChars 10 l.digits 0 * 10 ^ (-l.places).toNat

end Literal

/-- Whether a text, without the blanks around it, spells a literal. -/
def Spells (text : String) (l : Literal) : Prop := (Text.trim text).toList = l.chars

/-- Whether a text, without the blanks around it, says that a value is not a number. -/
def SpellsNaN (text : String) : Prop := Text.foldCase (Text.trim text) = "nan"

/-! ### Taking a literal apart -/

theorem isDigit_ne_letter {c : Char} (hc : c.isDigit = true) : c ≠ 'e' ∧ c ≠ 'E' := by
  constructor <;> rintro rfl <;> exact absurd hc (by decide)

theorem isDigit_ne_point {c : Char} (hc : c.isDigit = true) : c ≠ '.' := by
  rintro rfl
  exact absurd hc (by decide)

/-- A mantissa holds digits and the point. -/
theorem Literal.mem_mantissa {l : Literal} {c : Char} (hc : c ∈ l.mantissa) :
    c.isDigit = true ∨ c = '.' := by
  unfold mantissa at hc
  have hdigit := l.isDigit c
  cases hfraction : l.fraction with
  | none =>
    rw [hfraction] at hc hdigit
    exact .inl (hdigit hc)
  | some fraction =>
    rw [hfraction] at hc hdigit
    simp only [List.mem_append, List.mem_cons] at hc
    rcases hc with hc | rfl | hc
    · exact .inl (hdigit (List.mem_append_left _ hc))
    · exact .inr rfl
    · exact .inl (hdigit (List.mem_append_right _ hc))

/-- A mantissa is not empty, and does not begin with a sign or a letter. -/
theorem Literal.exists_mantissa_eq_cons (l : Literal) :
    ∃ c rest, l.mantissa = c :: rest ∧ (c.isDigit = true ∨ c = '.') := by
  cases hmantissa : l.mantissa with
  | nil =>
    unfold mantissa at hmantissa
    have hne := l.ne_nil
    cases hfraction : l.fraction with
    | none =>
      rw [hfraction] at hmantissa hne
      exact absurd hmantissa hne
    | some fraction =>
      rw [hfraction] at hmantissa
      simp at hmantissa
  | cons c rest => exact ⟨c, rest, rfl, l.mem_mantissa (hmantissa ▸ List.mem_cons_self)⟩

theorem Literal.splitSign_chars (l : Literal) : splitSign l.chars = (l.sign.negative, l.body) := by
  refine splitSign_append l.sign fun c hc => ?_
  obtain ⟨c', rest, hmantissa, hfirst⟩ := l.exists_mantissa_eq_cons
  unfold body at hc
  rw [hmantissa] at hc
  obtain rfl : c' = c := Option.some.inj hc
  rcases hfirst with hdigit | rfl
  · exact not_sign_of_isDigit hdigit
  · decide

/-- A list is split at the first member that a test refuses. -/
theorem takeWhile_append_cons {q : Char → Bool} {front : List Char}
    (hfront : ∀ c ∈ front, q c = true) {c : Char} (hc : q c = false) (rest : List Char) :
    (front ++ c :: rest).takeWhile q = front ∧ (front ++ c :: rest).dropWhile q = c :: rest := by
  have hstop : ¬q c = true := by simp [hc]
  rw [List.takeWhile_append_of_pos hfront, List.dropWhile_append_of_pos hfront,
    List.takeWhile_cons_of_neg hstop, List.dropWhile_cons_of_neg hstop, List.append_nil]
  exact ⟨rfl, rfl⟩

/-- A list is not split if a test refuses no member. -/
theorem takeWhile_of_all {q : Char → Bool} {cs : List Char} (hcs : ∀ c ∈ cs, q c = true) :
    cs.takeWhile q = cs ∧ cs.dropWhile q = [] :=
  ⟨List.takeWhile_eq_self_iff.mpr hcs, List.dropWhile_eq_nil_iff.mpr hcs⟩

/-- Whether a character is no exponent letter. -/
def notLetter (c : Char) : Bool := !decide (c = 'e' ∨ c = 'E')

theorem splitExponent_eq (cs : List Char) :
    splitExponent cs =
      match cs.dropWhile notLetter with
      | [] => (cs, none)
      | _ :: rest => (cs.takeWhile notLetter, some rest) := rfl

/-- The exponent is split off at its letter. -/
theorem Literal.splitExponent_body (l : Literal) :
    splitExponent l.body = (l.mantissa, l.exponent.map ExponentPart.chars) := by
  have hfront : ∀ c ∈ l.mantissa, notLetter c = true := by
    intro c hc
    rcases l.mem_mantissa hc with hdigit | rfl
    · simp [notLetter, isDigit_ne_letter hdigit]
    · rfl
  unfold body
  cases l.exponent with
  | none => rw [List.append_nil, splitExponent_eq, (takeWhile_of_all hfront).2, Option.map_none]
  | some e =>
    have hletter : notLetter e.letter = false := by simp [notLetter, e.isLetter]
    obtain ⟨hmantissa, hrest⟩ := takeWhile_append_cons hfront hletter e.chars
    rw [splitExponent_eq, hrest, hmantissa, Option.map_some]

/-- The digits are split at the point. -/
theorem Literal.split_mantissa (l : Literal) :
    (l.mantissa.takeWhile fun c => c ≠ '.') = l.whole ∧
      (l.mantissa.dropWhile fun c => c ≠ '.').drop 1 = l.fraction.getD [] := by
  have hfront : ∀ c ∈ l.whole, decide (c ≠ '.') = true := fun c hc =>
    decide_eq_true (isDigit_ne_point (l.isDigit c (List.mem_append_left _ hc)))
  unfold mantissa
  cases l.fraction with
  | none =>
    obtain ⟨htake, hdrop⟩ := takeWhile_of_all hfront
    rw [List.append_nil, htake, hdrop]
    exact ⟨rfl, rfl⟩
  | some fraction =>
    obtain ⟨htake, hdrop⟩ := takeWhile_append_cons hfront (c := '.') (by decide) fraction
    rw [htake, hdrop]
    exact ⟨rfl, rfl⟩

/-- The exponent of a literal is a whole number, as long as it fits thirty-two bits. -/
theorem Literal.exponent?_eq (l : Literal) :
    exponent? (l.exponent.map ExponentPart.chars) =
      (some l.power).filter fun e => -(2 ^ 31) ≤ e ∧ e < 2 ^ 31 := by
  unfold power
  cases l.exponent with
  | none => rfl
  | some e =>
    show Option.filter _ (Decimal.readInt? (e.sign.chars ++ e.digits)) = _
    rw [readInt?_append e.sign e.ne_nil e.isDigit]
    rfl

/-- Lower case leaves digits, signs and the point alone. -/
theorem toLower_ne_n {c : Char} (hc : c.isDigit = true ∨ c = '.' ∨ c = '+' ∨ c = '-') :
    c.toLower ≠ 'n' := by
  rcases hc with hdigit | rfl | rfl | rfl
  · have hrange : 48 ≤ c.val ∧ c.val ≤ 57 := by simpa [Char.isDigit] using hdigit
    have hlower : c.toLower = c := by
      unfold Char.toLower
      rw [dif_neg]
      exact fun hupper => absurd (UInt32.le_trans hupper.1 hrange.2) (by decide)
    rw [hlower]
    rintro rfl
    exact absurd hdigit (by decide)
  all_goals decide

/-- A literal does not spell that a value is not a number. -/
theorem Spells.not_nan {text : String} {l : Literal} (h : Spells text l) : ¬SpellsNaN text := by
  intro hnan
  have hlower : l.chars.map Char.toLower = ['n', 'a', 'n'] := by
    rw [← h]
    have hlist := congrArg String.toList hnan
    unfold Text.foldCase at hlist
    rwa [String.toList_ofList] at hlist
  obtain ⟨c, rest, hmantissa, hfirst⟩ := l.exists_mantissa_eq_cons
  have hchars : ∃ c rest, l.chars = c :: rest ∧
      (c.isDigit = true ∨ c = '.' ∨ c = '+' ∨ c = '-') := by
    unfold Literal.chars Literal.body
    rw [hmantissa]
    cases l.sign with
    | unwritten => exact ⟨c, _, rfl, hfirst.imp_right .inl⟩
    | plus => exact ⟨'+', _, rfl, .inr (.inr (.inl rfl))⟩
    | minus => exact ⟨'-', _, rfl, .inr (.inr (.inr rfl))⟩
  obtain ⟨c, rest, hchars, hfirst⟩ := hchars
  rw [hchars] at hlower
  exact toLower_ne_n hfirst (List.cons.inj hlower).1

/-- What the units and places of a literal are made into under a modifier. -/
def Literal.result (l : Literal) (mod : Option Modifier) : Outcome String :=
  match mod with
  | none => .ok (render l.sign.negative l.units l.scale)
  | some mod =>
    let rounded := rescale l.units l.scale mod.scale
    if mod.precision < digitCount (rounded / 10 ^ mod.scale) + mod.scale then
      .error (fieldOverflow mod)
    else .ok (render l.sign.negative rounded mod.scale)

/-- A text that spells a literal is read as the literal. -/
theorem ofText_literal {text : String} {l : Literal} (h : Spells text l)
    (hpower : l.power.natAbs ≤ maxExponent) (m : Int32) :
    ofText text m = l.result (Modifier.ofTypeMod? m) := by
  have hrange : (some l.power).filter (fun e => -(2 ^ 31) ≤ e ∧ e < 2 ^ 31) = some l.power := by
    rw [Option.filter_some, if_pos]
    unfold maxExponent at hpower
    rw [decide_eq_true_eq]
    omega
  have hform : ¬(l.digits.isEmpty || !l.digits.all Char.isDigit) = true := by
    have hne : l.digits ≠ [] := l.ne_nil
    have hall : l.digits.all Char.isDigit = true := List.all_eq_true.mpr l.isDigit
    simp [hne, hall]
  obtain ⟨hwhole, hfraction⟩ := l.split_mantissa
  have hnan : ¬Text.foldCase (Text.trim text) = "nan" := h.not_nan
  have htext : (Text.trim text).toList = l.chars := h
  unfold ofText
  simp only [if_neg hnan, htext, l.splitSign_chars, l.splitExponent_body, l.exponent?_eq, hrange,
    hwhole, hfraction, if_neg (Nat.not_lt.mpr hpower)]
  refine (if_neg hform).trans ?_
  unfold Literal.result
  cases Modifier.ofTypeMod? m <;> rfl

/-- A literal whose exponent is out of range is refused. -/
theorem ofText_large {text : String} {l : Literal} (h : Spells text l)
    (hpower : maxExponent < l.power.natAbs) (m : Int32) : ∃ f, ofText text m = .error f := by
  have hnan : ¬Text.foldCase (Text.trim text) = "nan" := h.not_nan
  have htext : (Text.trim text).toList = l.chars := h
  unfold ofText
  simp only [if_neg hnan, htext, l.splitSign_chars, l.splitExponent_body, l.exponent?_eq]
  -- an exponent may be too large for its type, or only for the limit
  split
  · exact ⟨_, rfl⟩
  next power hsome =>
    obtain ⟨heq, -⟩ := Option.filter_eq_some_iff.mp hsome
    obtain rfl := Option.some.inj heq
    exact ⟨overflow, if_pos hpower⟩

/-! ### Putting a literal together -/

/-- A list is split at a member that a test refuses, or it has none. -/
theorem exists_split (q : Char → Bool) (cs : List Char) :
    (cs.takeWhile q = cs ∧ cs.dropWhile q = []) ∨
      ∃ c rest, q c = false ∧ cs = cs.takeWhile q ++ c :: rest ∧ cs.dropWhile q = c :: rest := by
  have happend := List.takeWhile_append_dropWhile (p := q) (l := cs)
  cases hdrop : cs.dropWhile q with
  | nil =>
    rw [hdrop, List.append_nil] at happend
    exact .inl ⟨happend, rfl⟩
  | cons c rest =>
    have hhead := List.head?_dropWhile_not q cs
    rw [hdrop] at happend hhead
    exact .inr ⟨c, rest, by simpa using hhead, happend.symm, rfl⟩

/-- What stands behind an exponent letter is an exponent, if it is read as one. -/
theorem exists_exponent {body : List Char} {power : Int}
    (h : exponent? (splitExponent body).2 = some power) :
    ∃ exponent : Option ExponentPart, body = (splitExponent body).1 ++
      match exponent with
      | none => []
      | some e => e.letter :: e.chars := by
  rcases exists_split notLetter body with ⟨-, hdrop⟩ | ⟨letter, rest, hletter, hbody, hdrop⟩
  · rw [splitExponent_eq, hdrop]
    exact ⟨none, (List.append_nil body).symm⟩
  · rw [splitExponent_eq, hdrop] at h ⊢
    obtain ⟨hread, -⟩ := Option.filter_eq_some_iff.mp h
    obtain ⟨sign, digits, hrest, hne, hdigits⟩ := eq_append_of_readInt? hread
    have isLetter : letter = 'e' ∨ letter = 'E' := by
      simpa only [notLetter, Bool.not_eq_false', decide_eq_true_eq] using hletter
    refine ⟨some ⟨letter, sign, digits, isLetter, hne, hdigits⟩, ?_⟩
    show body = body.takeWhile notLetter ++ letter :: (sign.chars ++ digits)
    rw [← hrest]
    exact hbody

/-- Around the first point of a mantissa stand the digits before and after it. -/
theorem exists_fraction (mantissa : List Char) :
    ∃ fraction : Option (List Char),
      (mantissa.dropWhile fun c => c ≠ '.').drop 1 = fraction.getD [] ∧
      mantissa = (mantissa.takeWhile fun c => c ≠ '.') ++
        match fraction with
        | none => []
        | some fraction => '.' :: fraction := by
  rcases exists_split (fun c => decide (c ≠ '.')) mantissa with
    ⟨htake, hdrop⟩ | ⟨c, rest, hc, happend, hdrop⟩
  · refine ⟨none, by rw [hdrop]; rfl, ?_⟩
    rw [htake, List.append_nil]
  · obtain rfl : c = '.' := by simpa using hc
    exact ⟨some rest, by rw [hdrop]; rfl, happend⟩

/-- A text that is read spells a literal, or is not a number. -/
theorem spells_of_ofText {text out : String} {m : Int32} (h : ofText text m = .ok out) :
    (SpellsNaN text ∧ out = "NaN") ∨ ∃ l, Spells text l := by
  unfold ofText at h
  simp only at h
  split at h
  next hnan => exact .inl ⟨hnan, (Except.ok.inj h).symm⟩
  next =>
    obtain ⟨sign, hsign, -⟩ := exists_sign (Text.trim text).toList
    generalize hbody : (splitSign (Text.trim text).toList).2 = body at h hsign
    split at h
    · exact nomatch h
    next power hpower =>
      obtain ⟨exponent, hexponent⟩ := exists_exponent hpower
      obtain ⟨fraction, hfraction, hmantissa⟩ := exists_fraction (splitExponent body).1
      split at h
      · exact nomatch h
      · split at h
        · exact nomatch h
        next hform =>
          rw [hfraction] at hform
          simp only [Bool.or_eq_true, not_or, Bool.not_eq_true, Bool.not_eq_false'] at hform
          obtain ⟨hne, hdigits⟩ := hform
          refine .inr ⟨⟨sign, _, fraction, exponent, by simpa using hne,
            List.all_eq_true.mp hdigits⟩, ?_⟩
          show (Text.trim text).toList = sign.chars ++ ((_ ++ _) ++ _)
          rw [← hmantissa, ← hexponent]
          exact hsign

/-- What is read of a text that spells a literal is what the literal makes. -/
theorem result_of_ofText {text out : String} {l : Literal} {m : Int32} (hl : Spells text l)
    (h : ofText text m = .ok out) :
    l.power.natAbs ≤ maxExponent ∧ l.result (Modifier.ofTypeMod? m) = .ok out := by
  by_cases hpower : l.power.natAbs ≤ maxExponent
  · rw [ofText_literal hl hpower] at h
    exact ⟨hpower, h⟩
  · obtain ⟨f, hf⟩ := ofText_large hl (Nat.not_le.mp hpower) m
    rw [hf] at h
    exact nomatch h

/-! ### Digits of a canonical text -/

/-- The digits after the point count the units below one. -/
theorem ofDigitChars_fractionDigits (units scale : Nat) :
    Nat.ofDigitChars 10 (fractionDigits units scale) 0 = units % 10 ^ scale := by
  unfold fractionDigits
  split
  next hzero => rw [hzero, Nat.pow_zero, Nat.mod_one]; rfl
  next => rw [Nat.ofDigitChars_append, Nat.ofDigitChars_replicate_zero, Nat.mul_zero,
      Nat.ofDigitChars_ten_toDigits]

/-- The digits before and after the point count the units. -/
theorem ofDigitChars_units (units scale : Nat) :
    Nat.ofDigitChars 10
      (Nat.toDigits 10 (units / 10 ^ scale) ++ fractionDigits units scale) 0 = units := by
  rw [Nat.ofDigitChars_append, Nat.ofDigitChars_ten_toDigits,
    Nat.ofDigitChars_eq_ofDigitChars_zero, length_fractionDigits, ofDigitChars_fractionDigits,
    Nat.div_add_mod]

end Numeric

end StoredRoutine
