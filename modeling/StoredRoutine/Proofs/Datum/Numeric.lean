import StoredRoutine.Numeric

/-!
# `StoredRoutine.Proofs.Datum.Numeric`: texts of exact decimals

What is read as a numeric value is kept in its canonical text (`Canonical`): no zeros in front of
other digits, and no sign in front of zero. A modifier `numeric(p, s)` says how long the fraction
is, and bounds the digits in front of it (`fits_ofText`).
-/

set_option autoImplicit false

namespace StoredRoutine.Numeric

/-! ### Digits -/

/-- The digits of a number do not begin with a zero, unless it is zero. -/
theorem head?_toDigits {n : Nat} (hn : n ≠ 0) : (Nat.toDigits 10 n).head? ≠ some '0' := by
  induction n using Nat.strongRecOn with
  | _ n ih =>
    by_cases hsmall : n < 10
    · rw [Nat.toDigits_of_lt_base hsmall]
      simpa using hn
    · have hfront := ih (n / 10) (by omega) (by omega)
      rw [Nat.toDigits_of_base_le (by decide) (by omega)]
      cases hdigits : Nat.toDigits 10 (n / 10) with
      | nil => exact absurd hdigits Nat.toDigits_ne_nil
      | cons c rest =>
        rw [hdigits] at hfront
        exact hfront

theorem exists_ne_zero_of_mem_toDigits {n : Nat} (hn : n ≠ 0) :
    ∃ c ∈ Nat.toDigits 10 n, c ≠ '0' := by
  have hhead := head?_toDigits hn
  cases hdigits : Nat.toDigits 10 n with
  | nil => exact absurd hdigits Nat.toDigits_ne_nil
  | cons c rest =>
    rw [hdigits] at hhead
    exact ⟨c, List.mem_cons_self, by simpa using hhead⟩

theorem isDigit_toDigits {n : Nat} {c : Char} (hc : c ∈ Nat.toDigits 10 n) : c.isDigit = true :=
  Nat.isDigit_of_mem_toDigits (by decide) (by decide) hc

/-- The number of digits counts those of the text, but for zero. -/
theorem digitCount_eq {n : Nat} (hn : n ≠ 0) : digitCount n = (Nat.toDigits 10 n).length := by
  unfold digitCount
  rw [if_neg hn, Nat.toString_eq_repr, ← String.length_toList, Nat.toList_repr]

/-- The digits after the point, filled with zeros in front. -/
def fractionDigits (units scale : Nat) : List Char :=
  if scale = 0 then []
  else
    let digits := Nat.toDigits 10 (units % 10 ^ scale)
    List.replicate (scale - digits.length) '0' ++ digits

theorem length_fractionDigits (units scale : Nat) :
    (fractionDigits units scale).length = scale := by
  unfold fractionDigits
  split
  next hzero => rw [hzero]; rfl
  next hscale =>
    have hlt : units % 10 ^ scale < 10 ^ scale := Nat.mod_lt _ (Nat.pow_pos (by decide))
    have hshort : (Nat.toDigits 10 (units % 10 ^ scale)).length ≤ scale :=
      (Nat.length_toDigits_le_iff (by decide) (by omega)).mpr hlt
    simp only [List.length_append, List.length_replicate]
    omega

/-! ### Canonical texts -/

/-- The canonical text of a decimal, with its digits before and after the point. -/
structure Canonical (text : String) (negative : Bool) (whole fraction : List Char) : Prop where
  /-- A sign in front of a negative number, and a point in front of a fraction. -/
  form : text.toList = (if negative then ['-'] else []) ++ whole ++
    (if fraction = [] then [] else '.' :: fraction)
  digits : ∀ c ∈ whole ++ fraction, c.isDigit = true
  nonempty : whole ≠ []
  /-- No zero stands in front of other digits. -/
  leading : whole = ['0'] ∨ whole.head? ≠ some '0'
  /-- Zero has no sign. -/
  sign : negative = true → ∃ c ∈ whole ++ fraction, c ≠ '0'

theorem canonical_render (negative : Bool) (units scale : Nat) :
    Canonical (render negative units scale) (negative && decide (units ≠ 0))
      (Nat.toDigits 10 (units / 10 ^ scale)) (fractionDigits units scale) where
  form := by
    have hempty : fractionDigits units scale = [] ↔ scale = 0 := by
      rw [← List.length_eq_zero_iff, length_fractionDigits]
    unfold render
    simp only [String.toList_append, Nat.toString_eq_repr, Nat.toList_repr, hempty,
      String.toList_ofList, Bool.and_eq_true, decide_eq_true_eq]
    congr 1
    · congr 1
      split <;> rfl
    · unfold fractionDigits
      split <;> rfl
  digits := by
    intro c hc
    rcases List.mem_append.mp hc with hc | hc
    · exact isDigit_toDigits hc
    · unfold fractionDigits at hc
      split at hc
      · exact absurd hc List.not_mem_nil
      · rcases List.mem_append.mp hc with hc | hc
        · rw [List.eq_of_mem_replicate hc]
          rfl
        · exact isDigit_toDigits hc
  nonempty := Nat.toDigits_ne_nil
  leading := by
    by_cases hzero : units / 10 ^ scale = 0
    · rw [hzero]
      exact .inl rfl
    · exact .inr (head?_toDigits hzero)
  sign := by
    intro hnegative
    have hunits : units ≠ 0 := by
      simp only [Bool.and_eq_true, decide_eq_true_eq] at hnegative
      exact hnegative.2
    by_cases hzero : units / 10 ^ scale = 0
    · -- then all the units are in the fraction
      have hmod : units % 10 ^ scale = units :=
        Nat.mod_eq_of_lt ((Nat.div_eq_zero_iff_lt (Nat.pow_pos (by decide))).mp hzero)
      have hscale : scale ≠ 0 := by
        rintro rfl
        simp [hunits] at hzero
      obtain ⟨c, hc, hne⟩ := exists_ne_zero_of_mem_toDigits hunits
      refine ⟨c, List.mem_append_right _ ?_, hne⟩
      unfold fractionDigits
      rw [if_neg hscale, hmod]
      exact List.mem_append_right _ hc
    · obtain ⟨c, hc, hne⟩ := exists_ne_zero_of_mem_toDigits hzero
      exact ⟨c, List.mem_append_left _ hc, hne⟩

/-! ### Reading -/

/-- The modifier `numeric(p, s)`. -/
theorem Modifier.ofTypeMod?_eq {m : Int32} {p s : Nat} (hm : m.toInt = p * 2 ^ 16 + s + 4)
    (hs : s ≤ maxScale) : ofTypeMod? m = some ⟨p, s⟩ := by
  have hbound := m.toInt_lt
  have hlow : ¬ m < 4 := by
    rw [Int32.lt_iff_toInt_lt, hm]
    show ¬ (_ < (4 : Int))
    omega
  have hpacked : (m.toInt - 4).toNat = p * 2 ^ 16 + s := by omega
  unfold maxScale at hs
  unfold ofTypeMod? maxScale
  rw [if_neg hlow, hpacked]
  simp only [Option.some.injEq, Modifier.mk.injEq]
  omega

/-- A text is that of a numeric value under a modifier: not a number, or canonical with as many
digits as the modifier `numeric(p, s)` asks for. -/
def Fits (m : Int32) (text : String) : Prop :=
  text = "NaN" ∨ ∃ negative whole fraction, Canonical text negative whole fraction ∧
    ∀ p s : Nat, m.toInt = p * 2 ^ 16 + s + 4 → s ≤ maxScale →
      fraction.length = s ∧ (whole = ['0'] ∨ whole.length ≤ p - s)

/-- A number under a modifier, if it does not have too many digits. -/
theorem fits_render {negative : Bool} {units : Nat} {m : Int32} {mod : Modifier}
    (hm : Modifier.ofTypeMod? m = some mod)
    (hcount : digitCount (units / 10 ^ mod.scale) + mod.scale ≤ mod.precision) :
    Fits m (render negative units mod.scale) := by
  refine .inr ⟨_, _, _, canonical_render negative units mod.scale, fun p s hps hs => ?_⟩
  obtain rfl := Option.some.inj ((Modifier.ofTypeMod?_eq hps hs).symm.trans hm)
  refine ⟨length_fractionDigits units s, ?_⟩
  by_cases hzero : units / 10 ^ s = 0
  · left
    rw [hzero]
    rfl
  · right
    have hfits : (Nat.toDigits 10 (units / 10 ^ s)).length + s ≤ p := digitCount_eq hzero ▸ hcount
    exact Nat.le_sub_of_add_le hfits

/-- What is read under a modifier fits it. -/
theorem fits_ofText {text result : String} {m : Int32} (h : ofText text m = .ok result) :
    Fits m result := by
  unfold ofText at h
  simp only at h
  -- a text that is refused, for its form or for its size, has no result
  split at h
  · exact .inl (Except.ok.inj h).symm
  · split at h
    · exact nomatch h
    · split at h
      · exact nomatch h
      · split at h
        · exact nomatch h
        · split at h
          next hnone =>
            -- without a modifier the number keeps the fraction that it was written with
            obtain rfl := Except.ok.inj h
            refine .inr ⟨_, _, _, canonical_render _ _ _, fun p s hps hs => ?_⟩
            rw [Modifier.ofTypeMod?_eq hps hs] at hnone
            exact nomatch hnone
          next mod hsome =>
            split at h
            · exact nomatch h
            next hcount =>
              obtain rfl := Except.ok.inj h
              exact fits_render hsome (Nat.not_lt.mp hcount)

end StoredRoutine.Numeric
