import Mathlib.Algebra.Order.Round
import Mathlib.Data.Rat.Floor
import Mathlib.Tactic.FieldSimp
import Mathlib.Tactic.Linarith
import Mathlib.Tactic.Ring
import StoredRoutine.Proofs.Datum.Literals

/-!
# `StoredRoutine.Proofs.Datum.Decimals`: exact decimals as rational numbers

A literal has a rational value, and so has a canonical text (`Denotes`). The text that a literal is
read as denotes the value of the literal; under a modifier `numeric(p, s)` it denotes the value
rounded to `s` places, a half away from zero, which has to stay below `10 ^ (p - s)`.

Reading works on natural numbers, the units of some scale. What they are in rational numbers is said
in `Literal.value_eq` for the literal, in `round_units` for the rounding and in `denotes_render` for
the text. `ofText_exact` has it all, and which texts are read.
-/

set_option autoImplicit false

namespace StoredRoutine.Numeric

/-! ### Values -/

/-- The number that a literal stands for. -/
def Literal.value (l : Literal) : ℚ :=
  l.sign.factor * Nat.ofDigitChars 10 l.digits 0 *
    (10 : ℚ) ^ (l.power - (l.fraction.getD []).length)

/-- A text is the canonical one of a number, with so many digits after the point. -/
def Denotes (text : String) (scale : ℕ) (q : ℚ) : Prop :=
  ∃ negative whole fraction, Canonical text negative whole fraction ∧ fraction.length = scale ∧
    q = (if negative then -1 else 1) * Nat.ofDigitChars 10 (whole ++ fraction) 0 / 10 ^ scale

/-- A number rounded to so many places, a half away from zero. -/
def roundedTo (places : ℕ) (q : ℚ) : ℚ :=
  (if q < 0 then -1 else 1) * round (|q| * 10 ^ places) / 10 ^ places

/-- The numbers that a modifier leaves room for. -/
def InField : Option Modifier → ℚ → Prop
  | none, _ => True
  | some m, q => |roundedTo m.scale q| < 10 ^ (m.precision - m.scale)

/-- A text is what a literal is to be read as under a modifier. -/
def Stands (l : Literal) : Option Modifier → String → Prop
  | none, text => Denotes text ((l.fraction.getD []).length - l.power).toNat l.value
  | some m, text => Denotes text m.scale (roundedTo m.scale l.value)

/-- A literal is its units over the power of ten of its scale. -/
theorem Literal.value_eq (l : Literal) :
    l.value = (if l.sign.negative then -1 else 1) * l.units / 10 ^ l.scale := by
  have hfactor : (l.sign.factor : ℚ) = if l.sign.negative then -1 else 1 := by
    unfold Decimal.Sign.factor
    split <;> simp
  unfold value units scale places
  rw [hfactor, mul_div_assoc, mul_assoc]
  congr 1
  generalize (l.fraction.getD []).length = n
  push_cast
  rw [mul_div_assoc]
  congr 1
  by_cases h : 0 ≤ (n : ℤ) - l.power
  · have hnone : (-((n : ℤ) - l.power)).toNat = 0 := by omega
    have hexponent : l.power - (n : ℤ) = -(((n : ℤ) - l.power).toNat : ℤ) := by omega
    rw [hnone, hexponent, zpow_neg, zpow_natCast, pow_zero, one_div]
  · have hnone : ((n : ℤ) - l.power).toNat = 0 := by omega
    have hexponent : l.power - (n : ℤ) = ((-((n : ℤ) - l.power)).toNat : ℤ) := by omega
    rw [hnone, hexponent, zpow_natCast, pow_zero, div_one]

/-! ### Rounding -/

/-- A quotient of natural numbers is rounded by comparing twice the rest with the divisor. -/
theorem round_div (units : ℕ) {unit : ℕ} (hunit : 0 < unit) :
    round ((units : ℚ) / unit) =
      ((units / unit + if unit ≤ 2 * (units % unit) then 1 else 0 : ℕ) : ℤ) := by
  have hpos : (0 : ℚ) < unit := Nat.cast_pos.mpr hunit
  have hlt := Nat.mod_lt units hunit
  have hsplit : (units : ℚ) / unit = (units / unit : ℕ) + (units % unit : ℕ) / unit := by
    rw [eq_comm, add_div_eq_mul_add_div _ _ hpos.ne', ← Nat.cast_mul, ← Nat.cast_add,
      Nat.div_add_mod']
  rw [round_eq, hsplit, Int.floor_eq_iff]
  generalize units / unit = quotient
  generalize units % unit = rest at hlt
  have hnonneg : (0 : ℚ) ≤ rest / unit := by positivity
  have hrest : (rest : ℚ) / unit < 1 := (div_lt_one hpos).mpr (Nat.cast_lt.mpr hlt)
  split
  next hhalf =>
    have hle : (1 : ℚ) / 2 ≤ rest / unit := by
      rw [div_le_div_iff₀ two_pos hpos, one_mul, mul_comm]
      exact_mod_cast hhalf
    constructor <;> push_cast <;> linarith
  next hhalf =>
    have hless : (rest : ℚ) / unit < 1 / 2 := by
      rw [div_lt_div_iff₀ hpos two_pos, one_mul, mul_comm]
      exact_mod_cast Nat.not_le.mp hhalf
    constructor <;> push_cast <;> linarith

/-- Changing the scale rounds. -/
theorem round_units (units natural scale : ℕ) :
    round ((units : ℚ) / 10 ^ natural * 10 ^ scale) = (rescale units natural scale : ℤ) := by
  unfold rescale
  split
  next hlt =>
    have hunits : (units : ℚ) / 10 ^ natural * 10 ^ scale =
        (units : ℚ) / ((10 ^ (natural - scale) : ℕ) : ℚ) := by
      obtain ⟨k, rfl⟩ := Nat.exists_eq_add_of_lt hlt
      rw [show scale + k + 1 - scale = k + 1 by omega, add_assoc, pow_add]
      push_cast
      field_simp
    rw [hunits]
    exact round_div units (Nat.pow_pos (by decide))
  next hge =>
    have hunits : (units : ℚ) / 10 ^ natural * 10 ^ scale =
        ((units * 10 ^ (scale - natural) : ℕ) : ℚ) := by
      obtain ⟨k, rfl⟩ := Nat.exists_eq_add_of_le (Nat.not_lt.mp hge)
      rw [Nat.add_sub_cancel_left, pow_add]
      push_cast
      field_simp
    rw [hunits, round_natCast]

/-- A literal is rounded by changing the scale of its units. -/
theorem Literal.roundedTo_value (l : Literal) (places : ℕ) :
    roundedTo places l.value =
      (if l.sign.negative then -1 else 1) * rescale l.units l.scale places / 10 ^ places := by
  have hround := round_units l.units l.scale places
  have hscale : (0 : ℚ) < 10 ^ l.scale := by positivity
  have habs : |l.value| = l.units / 10 ^ l.scale := by
    rw [l.value_eq, mul_div_assoc, abs_mul, abs_of_nonneg (by positivity : (0 : ℚ) ≤ _ / _)]
    split <;> simp
  unfold roundedTo
  rw [habs, hround]
  by_cases hzero : l.units = 0
  · -- zero has no sign, and there is nothing to round
    have hnone : rescale l.units l.scale places = 0 := by
      rw [hzero, Nat.cast_zero, zero_div, zero_mul, round_zero] at hround
      rw [hzero]
      exact_mod_cast hround.symm
    simp [hnone]
  · have hpos : (0 : ℚ) < l.units / 10 ^ l.scale :=
      div_pos (Nat.cast_pos.mpr (Nat.pos_of_ne_zero hzero)) hscale
    have hsign : l.value < 0 ↔ l.sign.negative = true := by
      rw [l.value_eq, mul_div_assoc]
      generalize (l.units : ℚ) / 10 ^ l.scale = size at hpos
      cases l.sign.negative
      · simpa using hpos.le
      · simpa using hpos
    simp only [hsign, Int.cast_natCast]

/-! ### Texts -/

/-- A rendered number denotes its units over the power of ten of the scale. -/
theorem denotes_render (negative : Bool) (units scale : ℕ) :
    Denotes (render negative units scale) scale
      ((if negative then -1 else 1) * units / 10 ^ scale) := by
  refine ⟨_, _, _, canonical_render negative units scale, length_fractionDigits units scale, ?_⟩
  rw [ofDigitChars_units]
  by_cases hzero : units = 0
  · subst hzero
    simp
  · simp [hzero]

/-! ### Room for a number -/

/-- A number with a sign is as large as without it. -/
theorem abs_signed (negative : Bool) {size : ℚ} (hsize : 0 ≤ size) :
    |(if negative then -1 else 1) * size| = size := by
  rw [abs_mul, abs_of_nonneg hsize]
  cases negative <;> simp

/-- A number has at most so many digits if it is below the power of ten. -/
theorem digitCount_le_iff (n k : ℕ) : digitCount n ≤ k ↔ n < 10 ^ k := by
  by_cases hzero : n = 0
  · subst hzero
    exact ⟨fun _ => Nat.pow_pos (by decide), fun _ => Nat.zero_le k⟩
  · rw [digitCount_eq hzero]
    cases k with
    | zero =>
      have hlength : 0 < (Nat.toDigits 10 n).length := Nat.length_toDigits_pos
      rw [Nat.pow_zero]
      omega
    | succ k => exact Nat.length_toDigits_le_iff (by decide) (Nat.succ_pos k)

/-- The digits in front of the point are counted, which says how large the number is. -/
theorem inField_iff {l : Literal} {m : Modifier} (hm : m.scale ≤ m.precision) :
    InField (some m) l.value ↔
      digitCount (rescale l.units l.scale m.scale / 10 ^ m.scale) + m.scale ≤ m.precision := by
  have hpos : (0 : ℚ) < 10 ^ m.scale := by positivity
  have hcount : digitCount (rescale l.units l.scale m.scale / 10 ^ m.scale) + m.scale ≤
      m.precision ↔
      digitCount (rescale l.units l.scale m.scale / 10 ^ m.scale) ≤ m.precision - m.scale := by
    omega
  show |roundedTo m.scale l.value| < 10 ^ (m.precision - m.scale) ↔ _
  rw [l.roundedTo_value, mul_div_assoc, abs_signed _ (by positivity), div_lt_iff₀ hpos, hcount,
    digitCount_le_iff, Nat.div_lt_iff_lt_mul (Nat.pow_pos (by decide))]
  exact_mod_cast Iff.rfl

/-! ### Modifiers -/

/-- The type modifiers without a precision and scale, and those of `numeric(p, s)`. -/
inductive Asks : Int32 → Option Modifier → Prop
  | nothing : Asks (-1) none
  | places {p s : ℕ} (hs : s ≤ p) (hp : p ≤ 1000) :
      Asks (typeMod (Int32.ofNat p) (Int32.ofNat s)) (some ⟨p, s⟩)

/-- Precision and scale are packed side by side. -/
theorem toInt_typeMod {p s : ℕ} (hs : s ≤ p) (hp : p ≤ 1000) :
    (typeMod (Int32.ofNat p) (Int32.ofNat s)).toInt = p * 2 ^ 16 + s + 4 := by
  have hpack : Int32.ofNat p <<< 16 ||| Int32.ofNat s = Int32.ofNat (p * 2 ^ 16 + s) := by
    apply Int32.toBitVec_inj.mp
    apply BitVec.eq_of_toNat_eq
    rw [Int32.toBitVec_or, Int32.toBitVec_shiftLeft,
      show (16 : Int32).toBitVec.smod 32 = 16#32 by decide]
    simp only [BitVec.toNat_or, BitVec.shiftLeft_eq', BitVec.toNat_shiftLeft,
      Int32.toBitVec_ofNat', BitVec.toNat_ofNat]
    -- nothing is lost at the top of the word, and the scale stays below the precision
    rw [Nat.mod_eq_of_lt (by omega : p < 2 ^ 32), Nat.mod_eq_of_lt (by omega : s < 2 ^ 32),
      Nat.mod_eq_of_lt (by omega : 16 < 2 ^ 32),
      Nat.mod_eq_of_lt (by omega : p * 2 ^ 16 + s < 2 ^ 32), ← Nat.shiftLeft_eq p 16,
      Nat.shiftLeft_add_eq_or_of_lt (by omega : s < 2 ^ 16), Nat.mod_eq_of_lt]
    rw [Nat.shiftLeft_eq]
    omega
  unfold typeMod
  rw [hpack, Int32.toInt_add, Int32.toInt_ofNat_of_lt (by omega),
    Int.bmod_eq_of_le (by simp; omega) (by simp; omega)]
  rfl

theorem Asks.ofTypeMod? {m : Int32} {mod : Option Modifier} (h : Asks m mod) :
    Modifier.ofTypeMod? m = mod := by
  cases h with
  | nothing => rfl
  | places hs hp =>
    exact Modifier.ofTypeMod?_eq (toInt_typeMod hs hp) (Nat.le_trans hs hp)

/-- What a literal is read as stands for it, and it is read if there is room. -/
theorem Literal.result_exact (l : Literal) {m : Int32} {mod : Option Modifier} (h : Asks m mod) :
    (InField mod l.value → ∃ out, l.result mod = .ok out) ∧
      ∀ out, l.result mod = .ok out → InField mod l.value ∧ Stands l mod out := by
  cases h with
  | nothing =>
    refine ⟨fun _ => ⟨_, rfl⟩, fun out hout => ⟨trivial, ?_⟩⟩
    obtain rfl := Except.ok.inj hout
    unfold Stands
    rw [l.value_eq]
    exact denotes_render _ _ _
  | @places p s hs hp =>
    unfold Literal.result
    simp only
    rw [inField_iff hs]
    split
    next hfull =>
      exact ⟨fun hroom => absurd hfull (Nat.not_lt.mpr hroom), fun out hout => nomatch hout⟩
    next hroom =>
      refine ⟨fun _ => ⟨_, rfl⟩, fun out hout => ⟨Nat.not_lt.mp hroom, ?_⟩⟩
      obtain rfl := Except.ok.inj hout
      show Denotes _ s (roundedTo s l.value)
      rw [l.roundedTo_value]
      exact denotes_render _ _ _

/-! ### Reading -/

/-- What is not read is refused with a conversion error. -/
theorem ofText_error {text : String} {m : Int32} {f : Failure} (h : ofText text m = .error f) :
    ∃ message, f = .conversion message := by
  unfold ofText at h
  simp only at h
  split at h
  · exact nomatch h
  · split at h
    · exact ⟨_, (Except.error.inj h).symm⟩
    · split at h
      · exact ⟨_, (Except.error.inj h).symm⟩
      · split at h
        · exact ⟨_, (Except.error.inj h).symm⟩
        · split at h
          · exact nomatch h
          · split at h
            · exact ⟨_, (Except.error.inj h).symm⟩
            · exact nomatch h

/-- Read as a numeric value under no modifier or under `numeric(p, s)`, a text is taken if, without
the blanks around it, it says `nan` in any case or spells a literal whose exponent is at most 1000
and whose value, rounded, is below `10 ^ (p - s)`; any other text is refused with a conversion
error. The text that comes out is `NaN`, or the canonical text of the exact value of the literal,
rounded under a modifier, with the digits after the point that the literal has itself or the
modifier asks for. -/
theorem ofText_exact {m : Int32} {mod : Option Modifier} (hm : Asks m mod) (text : String) :
    ((∃ out, ofText text m = .ok out) ↔ SpellsNaN text ∨
      ∃ l, Spells text l ∧ l.power.natAbs ≤ 1000 ∧ InField mod l.value) ∧
    (∀ out, ofText text m = .ok out →
      (SpellsNaN text → out = "NaN") ∧ ∀ l, Spells text l → Stands l mod out) ∧
    ∀ f, ofText text m = .error f → ∃ message, f = .conversion message := by
  have hnan : SpellsNaN text → ofText text m = .ok "NaN" := by
    intro h
    unfold ofText
    exact if_pos h
  have hliteral : ∀ l, Spells text l → ∀ out, ofText text m = .ok out →
      l.power.natAbs ≤ 1000 ∧ l.result mod = .ok out := by
    intro l hl out hout
    rw [← hm.ofTypeMod?]
    exact result_of_ofText hl hout
  refine ⟨⟨?_, ?_⟩, fun out hout => ⟨fun h => ?_, fun l hl => ?_⟩, fun f => ofText_error⟩
  · -- A text that is taken is one of the two, and the rounding has kept it in the field.
    rintro ⟨out, hout⟩
    rcases spells_of_ofText hout with ⟨h, -⟩ | ⟨l, hl⟩
    · exact .inl h
    · obtain ⟨hpower, hresult⟩ := hliteral l hl out hout
      exact .inr ⟨l, hl, hpower, ((l.result_exact hm).2 out hresult).1⟩
  · rintro (h | ⟨l, hl, hpower, hroom⟩)
    · exact ⟨_, hnan h⟩
    · obtain ⟨out, hout⟩ := (l.result_exact hm).1 hroom
      exact ⟨out, by rw [ofText_literal hl hpower, hm.ofTypeMod?, hout]⟩
  · rw [hnan h] at hout
    exact (Except.ok.inj hout).symm
  · exact ((l.result_exact hm).2 out (hliteral l hl out hout).2).2

/-- A literal whose rounding to two places carries into a new digit. -/
def carried : Literal where
  sign := .plus
  whole := ['9']
  fraction := some ['9', '9', '9', '5']
  exponent := some ⟨'E', .unwritten, ['1'], .inr rfl, by decide, List.all_eq_true.mp rfl⟩
  ne_nil := by decide
  isDigit := List.all_eq_true.mp rfl

/-- `numeric(5, 2)` has room for the new digit, `numeric(4, 2)` has not. -/
theorem ofText_exact_carried :
    ofText " +9.9995E1 " (typeMod 5 2) = .ok "100.00" ∧
      Spells " +9.9995E1 " carried ∧ Stands carried (some ⟨5, 2⟩) "100.00" ∧
      ¬InField (some ⟨4, 2⟩) carried.value := by
  have hspells : Spells " +9.9995E1 " carried := rfl
  have hread : ofText " +9.9995E1 " (typeMod 5 2) = .ok "100.00" := by decide +kernel
  have hrefused : ∀ out, ofText " +9.9995E1 " (typeMod 4 2) ≠ .ok out := by
    have hfull : (ofText " +9.9995E1 " (typeMod 4 2)).isOk = false := by decide +kernel
    intro out hout
    rw [hout] at hfull
    cases hfull
  have hfive : Asks (typeMod 5 2) (some ⟨5, 2⟩) := .places (p := 5) (s := 2) (by decide) (by decide)
  have hfour : Asks (typeMod 4 2) (some ⟨4, 2⟩) := .places (p := 4) (s := 2) (by decide) (by decide)
  obtain ⟨-, hout, -⟩ := ofText_exact hfive " +9.9995E1 "
  obtain ⟨haccepts, -, -⟩ := ofText_exact hfour " +9.9995E1 "
  refine ⟨hread, hspells, (hout _ hread).2 carried hspells, fun hroom => ?_⟩
  obtain ⟨out, hread⟩ := haccepts.mpr (.inr ⟨carried, hspells, by decide, hroom⟩)
  exact hrefused out hread

end StoredRoutine.Numeric
