import StoredRoutine.Proofs.Datum.Literals
import StoredRoutine.Proofs.Datum.Text

/-!
# `StoredRoutine.Proofs.Datum.Reading`: what was written is read back

A value that was read from a text is written as another text, which need not be the first one: the
blanks around it are gone, a number is rounded, a text is cut or filled. Reading the other text
under the same modifier gives the same value (`Datum.ofText_toText`), for the enums and the base
types other than floats and documents. The section of each type has the lemma for its form.
-/

set_option autoImplicit false

namespace StoredRoutine

/-! ### Blanks -/

namespace Text

/-- A text without blanks has none to be taken off. -/
theorem trim_eq_self {s : String} (h : ∀ c ∈ s.toList, isBlank c = false) : trim s = s := by
  have hkept : ∀ cs : List Char, (∀ c ∈ cs, isBlank c = false) → cs.dropWhile isBlank = cs := by
    intro cs hcs
    cases cs with
    | nil => rfl
    | cons c rest => exact List.dropWhile_cons_of_neg (by simp [hcs c List.mem_cons_self])
  unfold trim trimBlanks
  rw [hkept _ h, hkept _ fun c hc => h c (List.mem_reverse.mp hc), List.reverse_reverse,
    String.ofList_toList]

/-- Digits are no blanks. -/
theorem not_isBlank_of_isDigit {c : Char} (hc : c.isDigit = true) : isBlank c = false := by
  have hrange : 48 ≤ c.toNat ∧ c.toNat ≤ 57 := by
    simpa [Char.isDigit, UInt32.le_iff_toNat_le] using hc
  simp [isBlank, blankRanges]
  omega

end Text

/-! ### Whole numbers -/

namespace Decimal

/-- Signs are no blanks. -/
theorem Sign.not_isBlank (sign : Sign) : ∀ c ∈ sign.chars, Text.isBlank c = false := by
  cases sign with
  | unwritten => exact fun c hc => absurd hc List.not_mem_nil
  | plus => exact List.forall_mem_singleton.mpr rfl
  | minus => exact List.forall_mem_singleton.mpr rfl

/-- The sign that a whole number is written with. -/
def Sign.ofInt (z : Int) : Sign := if z < 0 then .minus else .unwritten

/-- A whole number is its sign and its size. -/
theorem Sign.factor_ofInt (z : Int) : (Sign.ofInt z).factor * z.natAbs = z := by
  unfold Sign.ofInt
  split
  next hneg =>
    show -1 * (z.natAbs : Int) = z
    omega
  next hneg =>
    show 1 * (z.natAbs : Int) = z
    omega

/-- A whole number is written as its sign and the digits of its size. -/
theorem toList_toString (z : Int) :
    (toString z).toList = (Sign.ofInt z).chars ++ Nat.toDigits 10 z.natAbs := by
  cases z with
  | ofNat n =>
    show n.repr.toList = _
    rw [Nat.toList_repr]
    rfl
  | negSucc n =>
    show ("-" ++ (n + 1).repr).toList = _
    have hsign : Sign.ofInt (.negSucc n) = .minus := if_pos (Int.negSucc_lt_zero n)
    rw [String.toList_append, Nat.toList_repr, hsign]
    rfl

/-- A whole number is read back from its text. -/
theorem readInt?_toString (z : Int) : readInt? (toString z).toList = some z := by
  rw [toList_toString, readInt?_append _ Nat.toDigits_ne_nil fun _ => Numeric.isDigit_toDigits,
    Nat.ofDigitChars_ten_toDigits, Sign.factor_ofInt]

/-- The text of a whole number has no blanks. -/
theorem trim_toString (z : Int) : Text.trim (toString z) = toString z := by
  refine Text.trim_eq_self fun c hc => ?_
  rw [toList_toString] at hc
  rcases List.mem_append.mp hc with hsign | hdigit
  · exact (Sign.ofInt z).not_isBlank c hsign
  · exact Text.not_isBlank_of_isDigit (Numeric.isDigit_toDigits hdigit)

end Decimal

/-! ### Exact decimals -/

namespace Numeric

/-- The digits after the point, with the point only if there are any. -/
def pointed (fraction : List Char) : Option (List Char) :=
  if fraction = [] then none else some fraction

theorem getD_pointed (fraction : List Char) : (pointed fraction).getD [] = fraction := by
  unfold pointed
  split
  next hnone => exact hnone.symm
  next => rfl

section

variable {text : String} {negative : Bool} {whole fraction : List Char}

/-- The literal that a canonical text spells. -/
def Canonical.literal (h : Canonical text negative whole fraction) : Literal where
  sign := if negative then .minus else .unwritten
  whole := whole
  fraction := pointed fraction
  exponent := none
  ne_nil := List.append_ne_nil_of_left_ne_nil h.nonempty _
  isDigit := by
    rw [getD_pointed]
    exact h.digits

theorem Canonical.negative_literal (h : Canonical text negative whole fraction) :
    h.literal.sign.negative = negative := by
  cases negative <;> rfl

theorem Canonical.places_literal (h : Canonical text negative whole fraction) :
    h.literal.places = fraction.length := by
  show (((pointed fraction).getD []).length : Int) - 0 = fraction.length
  rw [getD_pointed, Int.sub_zero]

theorem Canonical.scale_literal (h : Canonical text negative whole fraction) :
    h.literal.scale = fraction.length := by
  unfold Literal.scale
  rw [h.places_literal, Int.toNat_natCast]

theorem Canonical.units_literal (h : Canonical text negative whole fraction) :
    h.literal.units = Nat.ofDigitChars 10 (whole ++ fraction) 0 := by
  have hdigits : h.literal.digits = whole ++ fraction := congrArg (whole ++ ·) (getD_pointed _)
  have hnone : (-(fraction.length : Int)).toNat = 0 := by omega
  unfold Literal.units
  rw [hdigits, h.places_literal, hnone, Nat.pow_zero, Nat.mul_one]

/-- A canonical text has no exponent. -/
theorem Canonical.chars_literal (h : Canonical text negative whole fraction) :
    h.literal.chars = h.literal.sign.chars ++ h.literal.mantissa :=
  congrArg (_ ++ ·) (List.append_nil _)

/-- A canonical text spells its literal, without blanks around it. -/
theorem Canonical.spells (h : Canonical text negative whole fraction) : Spells text h.literal := by
  have hchars : text.toList = h.literal.sign.chars ++ h.literal.mantissa := by
    rw [h.form, List.append_assoc]
    unfold literal Literal.mantissa pointed
    congr 1
    · cases negative <;> rfl
    · by_cases hnone : fraction = [] <;> simp [hnone]
  unfold Spells
  rw [Text.trim_eq_self, hchars, h.chars_literal]
  intro c hc
  rw [hchars] at hc
  rcases List.mem_append.mp hc with hsign | hmantissa
  · exact h.literal.sign.not_isBlank c hsign
  · rcases h.literal.mem_mantissa hmantissa with hdigit | rfl
    · exact Text.not_isBlank_of_isDigit hdigit
    · decide

end

/-- Moved to the scale they have, units stay what they are. -/
theorem rescale_self (units scale : Nat) : rescale units scale scale = units := by
  unfold rescale
  rw [if_neg (Nat.lt_irrefl _), Nat.sub_self, Nat.pow_zero, Nat.mul_one]

/-- Zero is written without its sign. -/
theorem render_nonzero (negative : Bool) (units scale : Nat) :
    render (negative && decide (units ≠ 0)) units scale = render negative units scale := by
  unfold render
  simp only [Bool.and_eq_true, decide_eq_true_eq, and_assoc, and_self]

/-- Whether a number under a modifier is read as it is: its scale is the one asked for, and it does
not have too many digits. -/
def Kept (units scale : Nat) : Option Modifier → Prop
  | none => True
  | some mod =>
    mod.scale = scale ∧ digitCount (units / 10 ^ scale) + scale ≤ mod.precision

/-- A number that was written is read back, if the modifier keeps it. -/
theorem ofText_render {m : Int32} {units scale : Nat} (negative : Bool)
    (hkept : Kept units scale (Modifier.ofTypeMod? m)) :
    ofText (render negative units scale) m = .ok (render negative units scale) := by
  have hcanonical := canonical_render negative units scale
  have hunits : hcanonical.literal.units = units := by
    rw [hcanonical.units_literal, ofDigitChars_units]
  have hscale : hcanonical.literal.scale = scale := by
    rw [hcanonical.scale_literal, length_fractionDigits]
  rw [ofText_literal hcanonical.spells (Nat.zero_le _)]
  unfold Literal.result
  rw [hunits, hscale, hcanonical.negative_literal, render_nonzero]
  cases hmod : Modifier.ofTypeMod? m with
  | none => rfl
  | some mod =>
    rw [hmod] at hkept
    obtain ⟨rfl, hcount⟩ := hkept
    simp only [rescale_self, render_nonzero, if_neg (Nat.not_lt.mpr hcount)]

/-- What was read is read as itself: rounding a rounded number changes nothing. -/
theorem ofText_ofText {text out : String} {m : Int32} (h : ofText text m = .ok out) :
    ofText out m = .ok out := by
  rcases spells_of_ofText h with ⟨-, rfl⟩ | ⟨l, hl⟩
  · have hnan : Text.foldCase (Text.trim "NaN") = "nan" := by decide +kernel
    unfold ofText
    exact if_pos hnan
  · obtain ⟨-, hresult⟩ := result_of_ofText hl h
    unfold Literal.result at hresult
    cases hmod : Modifier.ofTypeMod? m with
    | none =>
      rw [hmod] at hresult
      obtain rfl := Except.ok.inj hresult
      exact ofText_render _ (by rw [hmod]; trivial)
    | some mod =>
      rw [hmod] at hresult
      simp only at hresult
      split at hresult
      · exact nomatch hresult
      next hcount =>
        obtain rfl := Except.ok.inj hresult
        exact ofText_render _ (by rw [hmod]; exact ⟨rfl, Nat.not_lt.mp hcount⟩)

end Numeric

namespace Datum

/-! ### Texts of limited length -/

/-- The spaces that fill a text of so many characters. -/
def filling (n : Nat) (text : String) : List Char :=
  List.replicate (n - text.toList.length) ' '

variable {n : Nat} {m : Int32} {text out : String}

/-- A text is cut to so many characters if only spaces stand behind them. -/
theorem cutSpaces?_eq_some {cut : String} :
    cutSpaces? n text = some cut ↔
      (∀ c ∈ text.toList.drop n, c = ' ') ∧ cut = String.ofList (text.toList.take n) := by
  unfold cutSpaces?
  simp only [List.all_eq_true, decide_eq_true_eq, Option.ite_none_right_eq_some,
    Option.some.injEq]
  exact and_congr_right fun _ => eq_comm

/-- Which texts `varchar(n)` takes, and what becomes of them. -/
theorem varcharOfText_eq_ok (hm : m.toInt = n + 4) :
    varcharOfText text m = .ok out ↔
      (∀ c ∈ text.toList.drop n, c = ' ') ∧ out = String.ofList (text.toList.take n) := by
  rw [← cutSpaces?_eq_some]
  unfold varcharOfText
  simp only [charLength?_eq hm]
  cases cutSpaces? n text <;> simp [eq_comm]

/-- Which texts `char(n)` takes, and what becomes of them. -/
theorem bpcharOfText_eq_ok (hm : m.toInt = n + 4) :
    bpcharOfText text m = .ok out ↔
      (∀ c ∈ text.toList.drop n, c = ' ') ∧
        out = String.ofList (text.toList.take n ++ filling n text) := by
  have hfilling : n - (text.toList.take n).length = n - text.toList.length := by
    rw [List.length_take]
    omega
  unfold bpcharOfText filling
  simp only [charLength?_eq hm]
  cases hcut : cutSpaces? n text with
  | none =>
    constructor
    · intro h
      exact nomatch h
    · rintro ⟨hspaces, -⟩
      rw [cutSpaces?_eq_some.mpr ⟨hspaces, rfl⟩] at hcut
      exact nomatch hcut
  | some cut =>
    obtain ⟨hspaces, rfl⟩ := cutSpaces?_eq_some.mp hcut
    simp only [String.toList_ofList, hfilling, Except.ok.injEq]
    exact ⟨fun h => ⟨hspaces, h.symm⟩, fun h => h.2.symm⟩

/-- A modifier of a character type sets a length or none. -/
theorem charLength?_cases (m : Int32) : charLength? m = none ∨ ∃ n : Nat, m.toInt = n + 4 := by
  unfold charLength?
  split
  · exact .inl rfl
  next hlow =>
    right
    refine ⟨(m.toInt - 4).toNat, ?_⟩
    rw [Int32.lt_iff_toInt_lt] at hlow
    have : ¬m.toInt < 4 := hlow
    omega

/-- A text that was cut need not be cut again. -/
theorem varcharOfText_varcharOfText (h : varcharOfText text m = .ok out) :
    varcharOfText out m = .ok out := by
  rcases charLength?_cases m with hnone | ⟨n, hm⟩
  · unfold varcharOfText
    rw [hnone]
  · obtain ⟨-, rfl⟩ := (varcharOfText_eq_ok hm).mp h
    rw [varcharOfText_eq_ok hm, String.toList_ofList, List.take_take, Nat.min_self]
    exact ⟨by simp, rfl⟩

/-- A text that was filled need be neither cut nor filled again. -/
theorem bpcharOfText_bpcharOfText (h : bpcharOfText text m = .ok out) :
    bpcharOfText out m = .ok out := by
  rcases charLength?_cases m with hnone | ⟨n, hm⟩
  · unfold bpcharOfText
    rw [hnone]
  · have hlength : out.toList.length = n := by
      rw [String.length_toList]
      exact length_bpcharOfText hm h
    rw [bpcharOfText_eq_ok hm]
    unfold filling
    rw [List.take_of_length_le hlength.le, List.drop_of_length_le hlength.le, hlength,
      Nat.sub_self, List.replicate_zero, List.append_nil, String.ofList_toList]
    exact ⟨by simp, rfl⟩

/-! ### Bytes -/

/-- A byte is read back from its two digits. -/
theorem bytePair?_hexDigit (b : UInt8) :
    bytePair? (Text.hexDigit (b.toNat / 16)) (Text.hexDigit (b.toNat % 16)) = some b := by
  have hb := b.toNat_lt
  have hplus : ∀ k : Fin 16, Text.hexDigit k ≠ '+' := by decide
  have hhigh : Text.hexDigit (b.toNat / 16) ≠ '+' := hplus ⟨b.toNat / 16, by omega⟩
  unfold bytePair?
  rw [if_neg hhigh, Text.hexValue?_hexDigit (by omega), Text.hexValue?_hexDigit (by omega)]
  show some (UInt8.ofNat (16 * (b.toNat / 16) + b.toNat % 16)) = some b
  rw [Nat.div_add_mod, UInt8.ofNat_toNat]

/-- Bytes are read back from their digits. -/
theorem bytePairs?_flatMap (bytes : List UInt8) :
    bytePairs? (bytes.flatMap Text.hexByte) = some bytes := by
  induction bytes with
  | nil => rfl
  | cons b bytes ih =>
    show bytePairs? (Text.hexDigit (b.toNat / 16) :: Text.hexDigit (b.toNat % 16) ::
      bytes.flatMap Text.hexByte) = _
    unfold bytePairs?
    rw [bytePair?_hexDigit, ih]
    rfl

theorem byteaOfText?_textOfBytea (bytes : ByteArray) :
    byteaOfText? (textOfBytea bytes) = some bytes := by
  unfold byteaOfText? textOfBytea
  rw [String.toList_ofList]
  simp only [bytePairs?_flatMap, Option.map_some]

/-! ### Whole numbers and truth values -/

/-- A number of a width is read back from its text. -/
theorem intOfText?_toString {bits : Nat} {z : Int} (hlow : -(2 ^ (bits - 1) : Int) ≤ z)
    (hhigh : z < 2 ^ (bits - 1)) : intOfText? bits (toString z) = some z := by
  unfold intOfText?
  rw [Decimal.trim_toString, Decimal.readInt?_toString, Option.filter_some, if_pos]
  exact decide_eq_true ⟨hlow, hhigh⟩

theorem boolOfText?_toText (b : Bool) : boolOfText? (if b then "t" else "f") = some b := by
  cases b <;> decide +kernel

/-! ### Input and output -/

theorem some_of_orFail_map_eq_ok {α β : Type} {f : Failure} {x : Option α} {g : α → β} {b : β}
    (h : orFail f (x.map g) = .ok b) : ∃ a, x = some a ∧ g a = b := by
  cases x with
  | none => exact nomatch h
  | some a => exact ⟨a, rfl, Except.ok.inj h⟩

/-- What is read as a value of a scalar type, other than a float or a document, has a text that is
read as the same value. -/
theorem scalarOfText_toText {s : Scalar} {name : String} {v : Datum}
    (hfloat4 : s ≠ .float4) (hfloat8 : s ≠ .float8) (hjson : s ≠ .json)
    (h : scalarOfText s name text m = .ok v) :
    ∃ written, v.toText = .ok written ∧ scalarOfText s name written m = .ok v := by
  cases s <;> simp only [scalarOfText] at h ⊢
  case float4 => exact absurd rfl hfloat4
  case float8 => exact absurd rfl hfloat8
  case json => exact absurd rfl hjson
  case bool =>
    obtain ⟨b, -, rfl⟩ := some_of_orFail_map_eq_ok h
    exact ⟨_, rfl, by rw [boolOfText?_toText]; rfl⟩
  case bytea =>
    obtain ⟨bytes, -, rfl⟩ := some_of_orFail_map_eq_ok h
    exact ⟨_, rfl, by rw [byteaOfText?_textOfBytea]; rfl⟩
  -- an integer type reads the digits of a number back if the number is in its range
  case int2 =>
    obtain ⟨z, -, rfl⟩ := some_of_orFail_map_eq_ok h
    refine ⟨_, rfl, ?_⟩
    rw [intOfText?_toString (Int16.le_toInt _) (Int16.toInt_lt _)]
    exact congrArg (fun n => Except.ok (Datum.int2 n)) (Int16.ofInt_toInt _)
  case int4 =>
    obtain ⟨z, -, rfl⟩ := some_of_orFail_map_eq_ok h
    refine ⟨_, rfl, ?_⟩
    rw [intOfText?_toString (Int32.le_toInt _) (Int32.toInt_lt _)]
    exact congrArg (fun n => Except.ok (Datum.int4 n)) (Int32.ofInt_toInt _)
  case int8 =>
    obtain ⟨z, -, rfl⟩ := some_of_orFail_map_eq_ok h
    refine ⟨_, rfl, ?_⟩
    rw [intOfText?_toString (Int64.le_toInt _) (Int64.toInt_lt _)]
    exact congrArg (fun n => Except.ok (Datum.int8 n)) (Int64.ofInt_toInt _)
  -- these texts are stored as they were read, and reading them once more changes nothing
  case numeric =>
    obtain ⟨out, hout, rfl⟩ := ok_of_map_eq_ok h
    exact ⟨out, rfl, by rw [Numeric.ofText_ofText hout]; rfl⟩
  case varchar =>
    obtain ⟨out, hout, rfl⟩ := ok_of_map_eq_ok h
    exact ⟨out, rfl, by rw [varcharOfText_varcharOfText hout]; rfl⟩
  case bpchar =>
    obtain ⟨out, hout, rfl⟩ := ok_of_map_eq_ok h
    exact ⟨out, rfl, by rw [bpcharOfText_bpcharOfText hout]; rfl⟩
  case text | refcursor =>
    obtain rfl := Except.ok.inj h
    exact ⟨text, rfl, rfl⟩

/-- The enums, and the base types other than floats and documents. -/
def HasText (type : TypeDescriptor) : Prop :=
  (∃ labels, type.kind = .enum labels) ∨
    type.kind = .base ∧ type.id ∉ [Scalar.float4.id, Scalar.float8.id, Scalar.json.id]

/-- The identifier of a scalar type is its own. -/
theorem id_of_ofId? {id : TypeId} {s : Scalar} (h : Scalar.ofId? id = some s) : id = s.id := by
  have hfound := List.find?_some h
  exact (beq_iff_eq.mp hfound).symm

/-- What is read as a value of such a type is read back from its text. -/
theorem exists_written_of_ofText {type : TypeDescriptor} (htype : HasText type) {v : Datum}
    (h : ofText type text m = .ok v) :
    ∃ written, v.toText = .ok written ∧ ofText type written m = .ok v := by
  unfold ofText at h ⊢
  rcases htype with ⟨labels, hkind⟩ | ⟨hkind, hid⟩
  · simp only [hkind] at h ⊢
    split at h
    next hlabel =>
      obtain rfl := Except.ok.inj h
      exact ⟨text, rfl, if_pos hlabel⟩
    · exact nomatch h
  · simp only [hkind] at h ⊢
    cases hscalar : Scalar.ofId? type.id with
    | none =>
      rw [hscalar] at h
      obtain rfl := Except.ok.inj h
      exact ⟨text, rfl, rfl⟩
    | some s =>
      rw [hscalar] at h
      rw [id_of_ofId? hscalar] at hid
      refine scalarOfText_toText ?_ ?_ ?_ h
      all_goals
        rintro rfl
        exact hid (by decide)

/-- A base type with the identifier of a scalar type is read as that. -/
theorem ofText_scalar {type : TypeDescriptor} {s : Scalar} (hkind : type.kind = .base)
    (hid : type.id = s.id) (text : String) (m : Int32) :
    ofText type text m = scalarOfText s type.name text m := by
  unfold ofText
  simp only [hkind, hid, Scalar.ofId?_id]

theorem ofText_varchar {type : TypeDescriptor} (hkind : type.kind = .base)
    (hid : type.id = Scalar.varchar.id) (hm : m.toInt = n + 4) {v : Datum} :
    ofText type text m = .ok v ↔
      (∀ c ∈ text.toList.drop n, c = ' ') ∧ v = .text (String.ofList (text.toList.take n)) := by
  rw [ofText_scalar hkind hid]
  show (varcharOfText text m).map Datum.text = .ok v ↔ _
  constructor
  · intro h
    obtain ⟨out, hout, rfl⟩ := ok_of_map_eq_ok h
    obtain ⟨hspaces, rfl⟩ := (varcharOfText_eq_ok hm).mp hout
    exact ⟨hspaces, rfl⟩
  · rintro ⟨hspaces, rfl⟩
    rw [(varcharOfText_eq_ok hm).mpr ⟨hspaces, rfl⟩]
    rfl

theorem ofText_bpchar {type : TypeDescriptor} (hkind : type.kind = .base)
    (hid : type.id = Scalar.bpchar.id) (hm : m.toInt = n + 4) {v : Datum} :
    ofText type text m = .ok v ↔
      (∀ c ∈ text.toList.drop n, c = ' ') ∧
        v = .text (String.ofList (text.toList.take n ++ filling n text)) := by
  rw [ofText_scalar hkind hid]
  show (bpcharOfText text m).map Datum.text = .ok v ↔ _
  constructor
  · intro h
    obtain ⟨out, hout, rfl⟩ := ok_of_map_eq_ok h
    obtain ⟨hspaces, rfl⟩ := (bpcharOfText_eq_ok hm).mp hout
    exact ⟨hspaces, rfl⟩
  · rintro ⟨hspaces, rfl⟩
    rw [(bpcharOfText_eq_ok hm).mpr ⟨hspaces, rfl⟩]
    rfl

/-- What a text is read as has a text that is read as the same value under the same modifier. Under
`varchar(n)` the texts are read that have only spaces behind the first `n` characters, and cut to
these; under `char(n)` the same texts are, and filled with spaces up to `n` characters. -/
theorem ofText_toText {type : TypeDescriptor} (htype : HasText type) (m : Int32) :
    (∀ text v, ofText type text m = .ok v →
      ∃ written, v.toText = .ok written ∧ ofText type written m = .ok v) ∧
    (type.kind = .base → ∀ n : Nat, m.toInt = n + 4 → ∀ text v,
      (type.id = Scalar.varchar.id →
        (ofText type text m = .ok v ↔ (∀ c ∈ text.toList.drop n, c = ' ') ∧
          v = .text (String.ofList (text.toList.take n)))) ∧
      (type.id = Scalar.bpchar.id →
        (ofText type text m = .ok v ↔ (∀ c ∈ text.toList.drop n, c = ' ') ∧
          v = .text (String.ofList (text.toList.take n ++ filling n text))))) := by
  refine ⟨fun text v h => exists_written_of_ofText htype h, fun hkind n hm text v => ⟨?_, ?_⟩⟩
  · exact fun hid => ofText_varchar hkind hid hm
  · exact fun hid => ofText_bpchar hkind hid hm

/-- The type of texts of fixed length. -/
def bpcharType : TypeDescriptor := ⟨Scalar.bpchar.id, "bpchar", .base, -1, false, .int⟩

/-- Three of four characters, of five bytes, are kept by `char(3)`. -/
theorem ofText_toText_bpchar :
    ofText bpcharType "aé  " (charTypeMod 3) = .ok (.text "aé ") ∧
      ofText bpcharType "aé " (charTypeMod 3) = .ok (.text "aé ") := by
  have htype : HasText bpcharType := .inr ⟨rfl, by decide⟩
  obtain ⟨hback, hlimits⟩ := ofText_toText htype (charTypeMod 3)
  have hblank : "aé  ".toList.drop 3 = [' '] := rfl
  have hread : ofText bpcharType "aé  " (charTypeMod 3) = .ok (.text "aé ") :=
    ((hlimits rfl 3 (by decide) _ _).2 rfl).mpr
      ⟨hblank ▸ List.forall_mem_singleton.mpr rfl, by congr 1⟩
  obtain ⟨written, hwritten, hagain⟩ := hback _ _ hread
  obtain rfl : "aé " = written := Except.ok.inj hwritten
  exact ⟨hread, hagain⟩

end Datum

end StoredRoutine
