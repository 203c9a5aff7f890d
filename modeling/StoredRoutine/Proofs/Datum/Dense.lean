import StoredRoutine.Proofs.Datum.RowMajor

/-!
# `StoredRoutine.Proofs.Datum.Dense`: the dense form of an array

In its dense form an array is the list of the values that are present and, if there is a NULL, a
bitmap of the elements. The bits of a byte count from the lowest, so bit `i` of a bitmap is bit
`i % 8` of byte `i / 8` (`bitAt`). Both directions are said in terms of this one function:

* what is packed has the bits it was packed from, and nothing behind them (`bitAt_packBits`);
* what is read from a bitmap that is long enough are its first bits (`take_bits`);
* `spread` succeeds if as many bits are set as there are values, and then the elements have these
  bits and these values (`spread_eq_ok_iff`, `exists_spread_iff`).

`ofDense_roundTrip` puts this together: every array is built again from its dense form, and what is
built from a dense form has this form, the surplus of its bitmap apart.
-/

set_option autoImplicit false

namespace StoredRoutine

open Marshal (Extent volume volume_cons)

namespace ArrayOf

variable {α : Type}

/-! ### Bits -/

/-- A bit of a bitmap; behind its end no bit is set. -/
def bitAt (bytes : List UInt8) (i : Nat) : Bool := (bytes[i / 8]?.getD 0).toNat.testBit (i % 8)

/-- The bits of a number that was put together from bits. -/
theorem testBit_foldr (bits : List Bool) (i : Nat) :
    (bits.foldr (fun (bit : Bool) acc => 2 * acc + bit.toNat) 0).testBit i =
      bits[i]?.getD false := by
  induction bits generalizing i with
  | nil => simp
  | cons bit rest ih =>
    rw [List.foldr_cons]
    cases i with
    | zero => cases bit <;> simp [Nat.testBit_zero]
    | succ i =>
      have hhalf : ∀ n : Nat, (2 * n + bit.toNat) / 2 = n := by
        intro n
        cases bit
        · simp
        · simp only [Bool.toNat_true]
          omega
      rw [Nat.testBit_succ, hhalf, ih, List.getElem?_cons_succ]

/-- The bits of a byte that was put together from bits. -/
theorem testBit_byteOfBits (bits : List Bool) {i : Nat} (hi : i < 8) :
    (byteOfBits bits).toNat.testBit i = bits[i]?.getD false := by
  unfold byteOfBits
  rw [UInt8.toNat_ofNat', Nat.testBit_mod_two_pow,
    decide_eq_true hi, Bool.true_and, testBit_foldr]

theorem length_packBits (bits : List Bool) : (packBits bits).length = (bits.length + 7) / 8 := by
  simp [packBits]

/-- A bitmap has the bits that were packed, and then no more of them. -/
theorem bitAt_packBits (bits : List Bool) (i : Nat) :
    bitAt (packBits bits) i = bits[i]?.getD false := by
  have hmod : i % 8 < 8 := Nat.mod_lt i (by decide)
  unfold bitAt packBits
  by_cases hi : i / 8 < (bits.length + 7) / 8
  · rw [List.getElem?_map, List.getElem?_range hi, Option.map_some, Option.getD_some,
      testBit_byteOfBits _ hmod, List.getElem?_take_of_lt hmod, List.getElem?_drop,
      Nat.div_add_mod]
  · rw [List.getElem?_eq_none (by simpa using hi), List.getElem?_eq_none (by omega)]
    simp

/-- The bits of a bitmap one after the other. -/
theorem getElem?_bits (bytes : List UInt8) (i : Nat) :
    (bytes.flatMap byteBits)[i]? =
      if i < 8 * bytes.length then some (bitAt bytes i) else none := by
  induction bytes generalizing i with
  | nil => simp
  | cons b rest ih =>
    have hlength : (byteBits b).length = 8 := by simp [byteBits]
    rw [List.flatMap_cons, List.length_cons]
    by_cases hi : i < 8
    · rw [List.getElem?_append_left (by omega), if_pos (by omega)]
      simp [bitAt, byteBits, hi, Nat.div_eq_of_lt hi, Nat.mod_eq_of_lt hi]
    · obtain ⟨j, rfl⟩ := Nat.exists_eq_add_of_le' (Nat.not_lt.mp hi)
      rw [List.getElem?_append_right (by omega), hlength, Nat.add_sub_cancel, ih]
      have hbit : bitAt (b :: rest) (j + 8) = bitAt rest j := by
        simp [bitAt]
      simp only [hbit, show j + 8 < 8 * (rest.length + 1) ↔ j < 8 * rest.length by omega]

/-- The first bits of a bitmap that has as many. -/
theorem take_bits {bytes : List UInt8} {n : Nat} (h : n ≤ 8 * bytes.length) :
    (bytes.flatMap byteBits).take n = (List.range n).map (bitAt bytes) := by
  apply List.ext_getElem?
  intro i
  rw [List.getElem?_take, getElem?_bits, List.getElem?_map]
  by_cases hi : i < n
  · rw [if_pos hi, if_pos (by omega), List.getElem?_range hi, Option.map_some]
  · rw [if_neg hi, List.getElem?_eq_none (by simpa using hi), Option.map_none]

/-! ### Values and bits -/

/-- As many elements are present as there are values. -/
theorem count_isSome (elements : List (Option α)) :
    (elements.map Option.isSome).count true = (elements.filterMap id).length := by
  induction elements with
  | nil => rfl
  | cons element rest ih => cases element <;> simp [ih]

/-- Elements that are taken apart into bits and values are put together again. -/
theorem spread_elements (elements : List (Option α)) :
    spread (elements.map Option.isSome) (elements.filterMap id) = .ok elements := by
  induction elements with
  | nil => rfl
  | cons element rest ih =>
    cases element with
    | none =>
      show (spread (rest.map Option.isSome) (rest.filterMap id)).map (none :: ·) = _
      rw [ih]
      rfl
    | some v =>
      show (spread (rest.map Option.isSome) (rest.filterMap id)).map (some v :: ·) = _
      rw [ih]
      rfl

/-- Values are spread over bits if the elements have these bits and these values. -/
theorem spread_eq_ok_iff {bits : List Bool} {values : List α} {elements : List (Option α)} :
    spread bits values = .ok elements ↔
      elements.map Option.isSome = bits ∧ elements.filterMap id = values := by
  constructor
  · intro h
    induction bits generalizing values elements with
    | nil =>
      cases values with
      | nil =>
        obtain rfl := Except.ok.inj h
        exact ⟨rfl, rfl⟩
      | cons v values => exact nomatch h
    | cons bit bits ih =>
      cases bit with
      | false =>
        obtain ⟨rest, hrest, rfl⟩ := Datum.ok_of_map_eq_ok h
        obtain ⟨rfl, rfl⟩ := ih hrest
        exact ⟨rfl, rfl⟩
      | true =>
        cases values with
        | nil => exact nomatch h
        | cons v values =>
          obtain ⟨rest, hrest, rfl⟩ := Datum.ok_of_map_eq_ok h
          obtain ⟨rfl, rfl⟩ := ih hrest
          exact ⟨rfl, rfl⟩
  · rintro ⟨rfl, rfl⟩
    exact spread_elements elements

/-- Values can be spread over bits if there are as many of them as bits are set. -/
theorem exists_spread_iff {bits : List Bool} {values : List α} :
    (∃ elements, spread bits values = .ok elements) ↔ bits.count true = values.length := by
  constructor
  · rintro ⟨elements, h⟩
    obtain ⟨rfl, rfl⟩ := spread_eq_ok_iff.mp h
    exact count_isSome elements
  · intro hcount
    induction bits generalizing values with
    | nil =>
      obtain rfl := List.eq_nil_of_length_eq_zero hcount.symm
      exact ⟨[], rfl⟩
    | cons bit bits ih =>
      cases bit with
      | false =>
        obtain ⟨rest, hrest⟩ := ih hcount
        exact ⟨none :: rest, congrArg (Except.map (none :: ·)) hrest⟩
      | true =>
        rw [List.count_cons_self] at hcount
        obtain ⟨v, values, rfl⟩ := List.exists_cons_of_length_eq_add_one hcount.symm
        obtain ⟨rest, hrest⟩ := ih (Nat.succ.inj hcount)
        exact ⟨some v :: rest, congrArg (Except.map (some v :: ·)) hrest⟩

/-! ### Words -/

/-- The number of elements in words is the product of the lengths, if that fits. -/
theorem toNat_wordCount (dims : List ArrayDim) : (wordCount dims).toNat = volume dims % 2 ^ 64 := by
  have hfold : ∀ start : UInt64,
      (dims.foldl (fun acc d => acc * UInt64.ofNat d.len) start).toNat =
        start.toNat * volume dims % 2 ^ 64 := by
    induction dims with
    | nil =>
      intro start
      simp [volume]
    | cons d rest ih =>
      intro start
      rw [List.foldl_cons, ih, volume_cons, UInt64.toNat_mul, UInt64.toNat_ofNat', Nat.mul_mod_mod,
        Nat.mod_mul_mod, Nat.mul_assoc]
  unfold wordCount
  rw [hfold, UInt64.toNat_one, Nat.one_mul]

/-! ### The dense form -/

/-- Whether an element is marked as present; without a bitmap all of them are. -/
def marked : Option (List UInt8) → Nat → Bool
  | none, _ => true
  | some bytes, i => bitAt bytes i

/-- Dimensions that are not empty describe some elements. -/
theorem volume_ne_zero {dims : List ArrayDim} (hpos : ∀ d ∈ dims, 0 < d.len) : volume dims ≠ 0 := by
  induction dims with
  | nil => exact Nat.one_ne_zero
  | cons d inner ih =>
    rw [volume_cons]
    exact Nat.mul_ne_zero (hpos d List.mem_cons_self).ne'
      (ih fun x hx => hpos x (List.mem_cons_of_mem d hx))

/-- With dimensions that describe some elements nothing else is built than a filled array. -/
theorem ofDims_eq_ok_iff {elementType : TypeId} {dims : List ArrayDim}
    {elements : List (Option α)} {a : ArrayOf α} (hne : dims ≠ []) (hvolume : volume dims ≠ 0) :
    ofDims elementType dims elements = .ok a ↔ a = ⟨elementType, dims, elements⟩ ∧ Filled a := by
  constructor
  · intro h
    obtain ⟨-, -, hempty⟩ | hfilled := ofDims_cases h
    · exact absurd hempty (not_or.mpr ⟨hne, hvolume⟩)
    · exact hfilled
  · rintro ⟨rfl, h⟩
    exact h.ofDims

/-- The bytes that a bitmap needs, calculated in words: where the sum overflows they are too few,
but never too many. -/
theorem toNat_bytesNeeded_le {n : UInt64} : ((n + 7) / 8).toNat ≤ (n.toNat + 7) / 8 := by
  rw [UInt64.toNat_div, UInt64.toNat_add]
  exact Nat.div_le_div_right (Nat.mod_le _ _)

/-- Elements that are all present are the values. -/
theorem eq_map_some_iff {n : Nat} {values : List α} {elements : List (Option α)}
    (hcount : elements.length = n) :
    elements = values.map some ↔
      elements.map Option.isSome = (List.range n).map (marked none) ∧
        elements.filterMap id = values := by
  have hmarked : (List.range n).map (marked none) = List.replicate n true := by
    rw [List.eq_replicate_iff]
    simp [marked]
  have hall : ∀ vs : List α, (vs.map some).map Option.isSome = List.replicate vs.length true ∧
      (vs.map some).filterMap id = vs := by
    intro vs
    constructor
    · rw [List.eq_replicate_iff]
      simp
    · simp
  rw [hmarked]
  constructor
  · rintro rfl
    obtain rfl : values.length = n := by simpa using hcount
    exact hall values
  · rintro ⟨hpresent, rfl⟩
    -- the same values over the same bits
    have hlength := count_isSome elements
    rw [hpresent, List.count_replicate_self] at hlength
    have hspread := spread_eq_ok_iff.mpr (hall (elements.filterMap id))
    rw [← hlength, ← hpresent, spread_elements] at hspread
    exact Except.ok.inj hspread

/-- What is built from a dense form: a filled array whose elements are present where they are marked
and have the values. The bitmap has to reach to the last element. -/
theorem ofDense_eq_ok_iff {elementType : TypeId} {dims : List ArrayDim} {values : List α}
    {bitmap : Option (List UInt8)} {a : ArrayOf α} (hne : dims ≠ []) (hvolume : volume dims ≠ 0)
    (hfits : volume dims < 2 ^ 64) :
    ofDense elementType dims values bitmap = .ok a ↔
      a.elementType = elementType ∧ a.dims = dims ∧ Filled a ∧
        a.elements.map Option.isSome = (List.range (volume dims)).map (marked bitmap) ∧
        a.elements.filterMap id = values ∧
        ∀ bytes, bitmap = some bytes → (volume dims + 7) / 8 ≤ bytes.length := by
  cases bitmap with
  | none =>
    show ofDims elementType dims (values.map some) = .ok a ↔ _
    rw [ofDims_eq_ok_iff hne hvolume]
    constructor
    · rintro ⟨rfl, h⟩
      obtain ⟨hpresent, hvalues⟩ := (eq_map_some_iff h.count).mp rfl
      exact ⟨rfl, rfl, h, hpresent, hvalues, fun _ hbytes => nomatch hbytes⟩
    · rintro ⟨rfl, rfl, h, hpresent, hvalues, -⟩
      rw [← (eq_map_some_iff h.count).mpr ⟨hpresent, hvalues⟩]
      exact ⟨rfl, h⟩
  | some bytes =>
    have hcount : (wordCount dims).toNat = volume dims := by
      rw [toNat_wordCount, Nat.mod_eq_of_lt hfits]
    have hneeded := toNat_bytesNeeded_le (n := wordCount dims)
    have hbits : (bytes.flatMap byteBits).length = 8 * bytes.length := by
      simp [List.length_flatMap, byteBits, Nat.mul_comm]
    rw [hcount] at hneeded
    unfold ofDense
    simp only [hcount]
    constructor
    · intro h
      split at h
      · exact nomatch h
      split at h
      · exact nomatch h
      next elements hspread =>
        obtain ⟨rfl, hfilled⟩ := (ofDims_eq_ok_iff hne hvolume).mp h
        obtain ⟨hpresent, hvalues⟩ := spread_eq_ok_iff.mp hspread
        -- there are as many bits as elements, so the bitmap was not too short
        have hreach : volume dims ≤ 8 * bytes.length := by
          have hlength := congrArg List.length hpresent
          rw [List.length_map, hfilled.count, List.length_take, hbits] at hlength
          have hmin : volume dims = min (volume dims) (8 * bytes.length) := hlength
          omega
        rw [take_bits hreach] at hpresent
        refine ⟨rfl, rfl, hfilled, hpresent, hvalues, ?_⟩
        rintro _ ⟨⟩
        omega
    · rintro ⟨rfl, rfl, h, hpresent, hvalues, hbytes⟩
      have hroom := hbytes bytes rfl
      have hspread : spread ((List.range (volume a.dims)).map (bitAt bytes)) values =
          .ok a.elements := spread_eq_ok_iff.mpr ⟨hpresent, hvalues⟩
      rw [if_neg (by omega), take_bits (by omega), hspread]
      exact h.ofDims

/-! ### There and back -/

/-- An array without a NULL has all its elements marked. -/
theorem hasNulls_eq_false_iff {a : ArrayOf α} :
    a.hasNulls = false ↔
      ∀ i < a.elements.length, (a.elements.map Option.isSome)[i]? = some true := by
  unfold hasNulls
  rw [List.any_eq_false]
  constructor
  · intro h i hi
    have hsome := h a.elements[i] (List.getElem_mem hi)
    simpa [List.getElem?_eq_getElem hi, Option.isSome_iff_ne_none] using hsome
  · intro h element hmem
    obtain ⟨i, hi, rfl⟩ := List.mem_iff_getElem.mp hmem
    simpa [List.getElem?_eq_getElem hi, Option.isSome_iff_ne_none] using h i hi

/-- The bitmap of an array marks the elements that are present. -/
theorem marked_nullBitmap? {a : ArrayOf α} {i : Nat} (hi : i < a.elements.length) :
    some (marked a.nullBitmap? i) = (a.elements.map Option.isSome)[i]? := by
  unfold nullBitmap?
  cases hnulls : a.hasNulls with
  | false =>
    rw [hasNulls_eq_false_iff.mp hnulls i hi]
    rfl
  | true =>
    show some (bitAt (packBits (a.elements.map Option.isSome)) i) = _
    rw [bitAt_packBits, List.getElem?_eq_getElem (by rwa [List.length_map])]
    rfl

/-- An array that has elements is built again from its dense form. -/
theorem Filled.ofDense {a : ArrayOf α} (h : Filled a) :
    ofDense a.elementType a.dims (a.elements.filterMap id) a.nullBitmap? = .ok a := by
  have hvolume : volume a.dims ≠ 0 := (Marshal.volume_pos_of_extents h.extents).ne'
  rw [ofDense_eq_ok_iff h.nonempty hvolume h.fits]
  refine ⟨rfl, rfl, h, ?_, rfl, ?_⟩
  · apply List.ext_getElem?
    intro i
    rw [List.getElem?_map (f := marked a.nullBitmap?)]
    by_cases hi : i < a.elements.length
    · rw [List.getElem?_range (h.count ▸ hi), Option.map_some, marked_nullBitmap? hi]
    · rw [List.getElem?_eq_none (by simpa using hi),
        List.getElem?_eq_none (by simpa [← h.count] using hi), Option.map_none]
  · intro bytes hbytes
    unfold nullBitmap? at hbytes
    obtain ⟨-, hpacked⟩ := Option.ite_none_right_eq_some.mp hbytes
    obtain rfl := Option.some.inj hpacked
    rw [length_packBits, List.length_map, h.count]

/-- A bitmap and a number of values that fit together: as many of the first `n` elements are marked
as there are values, and the bitmap reaches so far. -/
def Fits (n count : Nat) : Option (List UInt8) → Prop
  | none => count = n
  | some bytes => (n + 7) / 8 ≤ bytes.length ∧ (List.range n).countP (bitAt bytes) = count

/-- An array has the dense form from which it was built. Its own bitmap has as many bytes as are
needed and no bit behind the last element; the one it was built from may have more. -/
structure Unpacked (elementType : TypeId) (dims : List ArrayDim) (values : List α)
    (bitmap : Option (List UInt8)) (a : ArrayOf α) : Prop where
  type_eq : a.elementType = elementType
  dims_eq : a.dims = dims
  count : a.elements.length = volume dims
  values_eq : a.elements.filterMap id = values
  null : ∀ i < volume dims, (a.elements[i]? = some none ↔ marked bitmap i = false)
  absent : a.nullBitmap? = none ↔ ∀ i < volume dims, marked bitmap i = true
  packed : ∀ bytes, a.nullBitmap? = some bytes → bytes.length = (volume dims + 7) / 8 ∧
    ∀ i, bitAt bytes i = (decide (i < volume dims) && marked bitmap i)

section

variable {elementType : TypeId} {dims : List ArrayDim} {values : List α}
  {bitmap : Option (List UInt8)}

/-- What was built from a dense form has it. -/
theorem unpacked_of_ofDense {a : ArrayOf α} (hne : dims ≠ []) (hvolume : volume dims ≠ 0)
    (hfits : volume dims < 2 ^ 64) (h : ofDense elementType dims values bitmap = .ok a) :
    Unpacked elementType dims values bitmap a := by
  obtain ⟨htype, hdims, hfilled, hpresent, hvalues, -⟩ :=
    (ofDense_eq_ok_iff hne hvolume hfits).mp h
  have hcount : a.elements.length = volume dims := hdims ▸ hfilled.count
  -- which elements are present is what the bitmap marks, and all that is said of it follows from
  -- this
  have hat : ∀ i < volume dims, (a.elements.map Option.isSome)[i]? = some (marked bitmap i) := by
    intro i hi
    rw [hpresent, List.getElem?_map, List.getElem?_range hi, Option.map_some]
  constructor
  case type_eq => exact htype
  case dims_eq => exact hdims
  case count => exact hcount
  case values_eq => exact hvalues
  case null =>
    intro i hi
    have hi' := hat i hi
    rw [List.getElem?_map] at hi'
    obtain ⟨element, helement, hmarked⟩ := Option.map_eq_some_iff.mp hi'
    rw [helement, ← hmarked]
    cases element <;> simp
  case absent =>
    have hnulls : a.nullBitmap? = none ↔ a.hasNulls = false := by
      unfold nullBitmap?
      cases a.hasNulls <;> simp
    rw [hnulls, hasNulls_eq_false_iff, hcount]
    refine forall₂_congr fun i hi => ?_
    rw [hat i hi, Option.some_inj]
  case packed =>
    intro bytes hbytes
    unfold nullBitmap? at hbytes
    obtain ⟨-, hpacked⟩ := Option.ite_none_right_eq_some.mp hbytes
    obtain rfl := Option.some.inj hpacked
    rw [length_packBits, List.length_map, hcount]
    refine ⟨rfl, fun i => ?_⟩
    rw [bitAt_packBits]
    -- bits behind the last element are zero
    by_cases hi : i < volume dims
    · rw [hat i hi, decide_eq_true hi]
      rfl
    · rw [List.getElem?_eq_none (by simpa [hcount] using hi), decide_eq_false hi]
      rfl

/-- Bitmap and values fit if as many elements are marked as there are values. -/
theorem fits_iff {n count : Nat} :
    Fits n count bitmap ↔
      (∀ bytes, bitmap = some bytes → (n + 7) / 8 ≤ bytes.length) ∧
        ((List.range n).map (marked bitmap)).count true = count := by
  have hcount : ((List.range n).map (marked bitmap)).count true =
      (List.range n).countP (marked bitmap) := by
    rw [List.count_eq_countP, List.countP_map]
    exact List.countP_congr fun i _ => by simp
  rw [hcount]
  cases bitmap with
  | none =>
    have hall : (List.range n).countP (marked none) = n :=
      (List.countP_eq_length.mpr fun _ _ => rfl).trans List.length_range
    rw [hall]
    exact ⟨fun h => ⟨fun _ hbytes => (nomatch hbytes), Eq.symm h⟩, fun h => h.2.symm⟩
  | some bytes => simp [Fits, show marked (some bytes) = bitAt bytes from rfl]

/-- An array can be built from a dense form if bitmap and values fit the dimensions, and these are
such that an array can have them. -/
theorem exists_ofDense_iff (hne : dims ≠ []) (hpos : ∀ d ∈ dims, 0 < d.len)
    (hvolume : volume dims ≠ 0) (hfits : volume dims < 2 ^ 64) :
    (∃ a, ofDense elementType dims values bitmap = .ok a) ↔
      Fits (volume dims) values.length bitmap ∧
        ∀ d ∈ dims, d.lower.toInt + d.len - 1 ≤ 2 ^ 31 - 1 := by
  simp only [ofDense_eq_ok_iff hne hvolume hfits, fits_iff]
  constructor
  · rintro ⟨a, -, rfl, hfilled, hpresent, rfl, hbytes⟩
    refine ⟨⟨hbytes, ?_⟩, fun d hd => (hfilled.extents d hd).upper_le⟩
    rw [← hpresent, count_isSome]
  · rintro ⟨⟨hbytes, hcount⟩, hupper⟩
    obtain ⟨elements, hspread⟩ := exists_spread_iff.mpr hcount
    obtain ⟨hpresent, hvalues⟩ := spread_eq_ok_iff.mp hspread
    have hlength : elements.length = volume dims := by
      have hlength := congrArg List.length hpresent
      rwa [List.length_map, List.length_map, List.length_range] at hlength
    exact ⟨⟨elementType, dims, elements⟩, rfl, rfl,
      ⟨hne, fun d hd => ⟨hpos d hd, hupper d hd⟩, hlength, hfits⟩, hpresent, hvalues, hbytes⟩

end

/-- The dense form of an array and the array of a dense form. -/
theorem ofDense_roundTrip :
    (∀ (elementType : TypeId) (dims : List ArrayDim) (elements : List (Option α)) (a : ArrayOf α),
      ofDims elementType dims elements = .ok a →
        ofDense a.elementType a.dims (a.elements.filterMap id) a.nullBitmap? = .ok a) ∧
    ∀ (elementType : TypeId) (dims : List ArrayDim) (values : List α)
      (bitmap : Option (List UInt8)),
      dims ≠ [] → (∀ d ∈ dims, 0 < d.len) → volume dims < 2 ^ 64 →
        ((∃ a, ofDense elementType dims values bitmap = .ok a) ↔
          Fits (volume dims) values.length bitmap ∧
            ∀ d ∈ dims, d.lower.toInt + d.len - 1 ≤ 2 ^ 31 - 1) ∧
        ∀ a, ofDense elementType dims values bitmap = .ok a →
          Unpacked elementType dims values bitmap a := by
  constructor
  · intro elementType dims elements a h
    obtain ⟨rfl, -⟩ | ⟨-, hfilled⟩ := ofDims_cases h
    · rfl
    · exact hfilled.ofDense
  · intro elementType dims values bitmap hne hpos hfits
    have hvolume := volume_ne_zero hpos
    exact ⟨exists_ofDense_iff hne hpos hvolume hfits,
      fun a h => unpacked_of_ofDense hne hvolume hfits h⟩

/-- The values of the grid and its bitmap; and a bitmap that has more bits and one byte more. -/
theorem ofDense_roundTrip_grid :
    ofDims 18 grid.dims grid.elements = .ok grid ∧
      ofDense 18 grid.dims ['a', 'c', 'd', 'f'] (some [45]) = .ok grid ∧
      grid.dims ≠ [] ∧ (∀ d ∈ grid.dims, 0 < d.len) ∧ volume grid.dims < 2 ^ 64 ∧
      ofDense 18 grid.dims ['a', 'c', 'd', 'f'] (some [237, 7]) = .ok grid ∧
      Unpacked 18 grid.dims ['a', 'c', 'd', 'f'] (some [237, 7]) grid := by
  have hbuilt : ofDims 18 grid.dims grid.elements = .ok grid := rfl
  have hne : grid.dims ≠ [] := by decide
  have hpos : ∀ d ∈ grid.dims, 0 < d.len := by decide
  have hfits : volume grid.dims < 2 ^ 64 := by decide
  have hlonger : ofDense 18 grid.dims ['a', 'c', 'd', 'f'] (some [237, 7]) = .ok grid := rfl
  exact ⟨hbuilt, ofDense_roundTrip.1 18 grid.dims grid.elements grid hbuilt, hne, hpos, hfits,
    hlonger, (ofDense_roundTrip.2 18 grid.dims _ _ hne hpos hfits).2 grid hlonger⟩

end ArrayOf

end StoredRoutine
