import StoredRoutine.Proofs.Marshal.Shape

/-!
# `StoredRoutine.Proofs.Datum.Subscripts`: subscripts and places

The elements of an array stand in row-major order. A list of subscripts that lies `Within` the
dimensions has a `place` in this order:

* `place_lt`, `place_subscriptsAt`, `subscriptsAt_place`: the places are the numbers below the
  volume, and each is that of one list of subscripts;
* `offset?_eq_some_iff`: `offset?` finds the place of the subscripts within the dimensions, and of
  no others. It forms upper bounds in thirty-two bits, which is no loss for the dimensions that an
  array can have (`ArrayDim.toInt_upper`);
* `Regular.ext`: an array is known by its dimensions and by what stands at each of its subscripts.
-/

set_option autoImplicit false

namespace StoredRoutine

open Marshal (Extent volume volume_cons)

/-- The upper bound of a dimension that an array can have is the mathematical one. -/
theorem ArrayDim.toInt_upper {d : ArrayDim} (hd : Extent d) :
    d.upper.toInt = d.lower.toInt + d.len - 1 := by
  have hlow := d.lower.le_toInt
  have hpos := hd.pos
  have hup := hd.upper_le
  have hsize : Int32.size = 2 ^ 32 := rfl
  unfold ArrayDim.upper
  rw [Int32.toInt_sub, Int32.toInt_add, Int32.toInt_ofNat', hsize, Int.add_bmod_bmod,
    Int.bmod_sub_bmod, Int32.toInt_one]
  exact Int.bmod_eq_of_le (by omega) (by omega)

namespace ArrayOf

variable {α : Type}

/-! ### Places -/

/-- One subscript for each dimension, between its bounds. -/
def Within (dims : List ArrayDim) (subscripts : List Int) : Prop :=
  List.Forall₂ (fun (d : ArrayDim) k => d.lower.toInt ≤ k ∧ k ≤ d.lower.toInt + d.len - 1) dims
    subscripts

theorem within_cons {d : ArrayDim} {inner : List ArrayDim} {k : Int} {subscripts : List Int} :
    Within (d :: inner) (k :: subscripts) ↔
      (d.lower.toInt ≤ k ∧ k ≤ d.lower.toInt + d.len - 1) ∧ Within inner subscripts :=
  List.forall₂_cons

/-- The place of the element with the given subscripts in row-major order. -/
def place : List ArrayDim → List Int → Nat
  | d :: inner, k :: subscripts =>
    (k - d.lower.toInt).toNat * volume inner + place inner subscripts
  | _, _ => 0

theorem place_cons (d : ArrayDim) (inner : List ArrayDim) (k : Int) (subscripts : List Int) :
    place (d :: inner) (k :: subscripts) =
      (k - d.lower.toInt).toNat * volume inner + place inner subscripts := rfl

/-- The subscripts of the element at a place. -/
def subscriptsAt : List ArrayDim → Nat → List Int
  | [], _ => []
  | d :: inner, i =>
    (d.lower.toInt + (i / volume inner : Nat)) :: subscriptsAt inner (i % volume inner)

/-- Within the dimensions, places are below the volume. -/
theorem place_lt {dims : List ArrayDim} {subscripts : List Int} (h : Within dims subscripts) :
    place dims subscripts < volume dims := by
  induction h with
  | nil => exact Nat.one_pos
  | @cons d k inner subscripts hk _ ih =>
    rw [place_cons, volume_cons]
    have hindex : (k - d.lower.toInt).toNat + 1 ≤ d.len := by omega
    have hrow := Nat.mul_le_mul_right (volume inner) hindex
    rw [Nat.succ_mul] at hrow
    omega

/-- The place of subscripts gives the subscripts back. -/
theorem subscriptsAt_place {dims : List ArrayDim} {subscripts : List Int}
    (h : Within dims subscripts) : subscriptsAt dims (place dims subscripts) = subscripts := by
  induction h with
  | nil => rfl
  | @cons d k inner subscripts hk hrest ih =>
    have hlt := place_lt hrest
    have hindex : d.lower.toInt + ((k - d.lower.toInt).toNat : Int) = k := by omega
    rw [place_cons, Nat.mul_comm]
    simp only [subscriptsAt, Nat.mul_add_div (Nat.zero_lt_of_lt hlt), Nat.mul_add_mod,
      Nat.div_eq_of_lt hlt, Nat.mod_eq_of_lt hlt, Nat.add_zero, ih, hindex]

/-- Below the volume, there are subscripts at every place. -/
theorem within_subscriptsAt {dims : List ArrayDim} {i : Nat} (hi : i < volume dims) :
    Within dims (subscriptsAt dims i) := by
  induction dims generalizing i with
  | nil => exact List.Forall₂.nil
  | cons d inner ih =>
    rw [volume_cons] at hi
    have hvolume : 0 < volume inner := Nat.pos_of_mul_pos_left (Nat.zero_lt_of_lt hi)
    have hindex : i / volume inner < d.len := (Nat.div_lt_iff_lt_mul hvolume).mpr hi
    refine within_cons.mpr ⟨?_, ih (Nat.mod_lt i hvolume)⟩
    generalize i / volume inner = index at hindex
    omega

/-- The subscripts at a place have this place. -/
theorem place_subscriptsAt {dims : List ArrayDim} {i : Nat} (hi : i < volume dims) :
    place dims (subscriptsAt dims i) = i := by
  induction dims generalizing i with
  | nil => exact (Nat.lt_one_iff.mp hi).symm
  | cons d inner ih =>
    rw [volume_cons] at hi
    have hvolume : 0 < volume inner := Nat.pos_of_mul_pos_left (Nat.zero_lt_of_lt hi)
    have hindex : (d.lower.toInt + (i / volume inner : Nat) - d.lower.toInt).toNat =
        i / volume inner := by
      generalize i / volume inner = index
      omega
    show _ * volume inner + place inner (subscriptsAt inner (i % volume inner)) = i
    rw [hindex, ih (Nat.mod_lt i hvolume), Nat.mul_comm, Nat.div_add_mod]

/-- Subscripts within dimensions that an array can have fit thirty-two bits. -/
theorem exists_int32 {dims : List ArrayDim} (hdims : ∀ d ∈ dims, Extent d) {subscripts : List Int}
    (h : Within dims subscripts) : ∃ s : List Int32, s.map Int32.toInt = subscripts := by
  induction h with
  | nil => exact ⟨[], rfl⟩
  | @cons d k inner subscripts hk _ ih =>
    have hlow := d.lower.le_toInt
    have hup := (hdims d List.mem_cons_self).upper_le
    obtain ⟨s, hs⟩ := ih fun x hx => hdims x (List.mem_cons_of_mem d hx)
    refine ⟨Int32.ofInt k :: s, ?_⟩
    rw [List.map_cons, hs, Int32.toInt_ofInt_of_le (by omega) (by omega)]

/-! ### Offsets -/

/-- Going through the dimensions finds the place, behind those of the outer dimensions. -/
theorem offsetFrom_eq_some_iff {dims : List ArrayDim} (hdims : ∀ d ∈ dims, Extent d) (n i : Nat)
    (s : List Int32) :
    offsetFrom n dims s = some i ↔
      Within dims (s.map Int32.toInt) ∧ n * volume dims + place dims (s.map Int32.toInt) = i := by
  -- what the outer dimensions have found is a factor on the way in, so it is left open
  induction dims generalizing n s with
  | nil =>
    cases s with
    | nil => simp [offsetFrom, Within, place, volume]
    | cons k s => simp [offsetFrom, Within]
  | cons d inner ih =>
    cases s with
    | nil => simp [offsetFrom, Within]
    | cons k s =>
      have hupper := ArrayDim.toInt_upper (hdims d List.mem_cons_self)
      have hrest := ih (fun x hx => hdims x (List.mem_cons_of_mem d hx))
        (n * d.len + (k.toInt - d.lower.toInt).toNat) s
      -- the comparison of thirty-two bit numbers is that of the numbers they stand for
      have houtside : (k < d.lower ∨ d.upper < k) ↔
          ¬(d.lower.toInt ≤ k.toInt ∧ k.toInt ≤ d.lower.toInt + d.len - 1) := by
        rw [Int32.lt_iff_toInt_lt, Int32.lt_iff_toInt_lt, hupper]
        omega
      unfold offsetFrom
      rw [List.map_cons, within_cons, place_cons, volume_cons]
      by_cases hk : d.lower.toInt ≤ k.toInt ∧ k.toInt ≤ d.lower.toInt + d.len - 1
      · rw [if_neg (fun h => houtside.mp h hk), hrest, and_iff_right hk, Nat.add_mul, Nat.mul_assoc,
          Nat.add_assoc]
      · rw [if_pos (houtside.mpr hk)]
        constructor
        · exact fun hnone => nomatch hnone
        · exact fun hsome => absurd hsome.1.1 hk

/-- An array as it can be built: without dimensions and elements, or with dimensions that an array
can have and as many elements as they describe. -/
inductive Regular : ArrayOf α → Prop
  | empty (elementType : TypeId) : Regular (ArrayOf.empty elementType)
  | filled {elementType : TypeId} {dims : List ArrayDim} {elements : List (Option α)}
      (hne : dims ≠ []) (hdims : ∀ d ∈ dims, Extent d) (hcount : elements.length = volume dims) :
      Regular ⟨elementType, dims, elements⟩

/-- The offset of subscripts is their place, if they lie within the dimensions. -/
theorem offset?_eq_some_iff {a : ArrayOf α} (ha : Regular a) (hne : a.dims ≠ []) {i : Nat}
    {s : List Int32} :
    a.offset? s = some i ↔
      Within a.dims (s.map Int32.toInt) ∧ place a.dims (s.map Int32.toInt) = i := by
  cases ha with
  | empty elementType => exact absurd rfl hne
  | filled _ hdims _ =>
    unfold offset?
    rw [if_neg hne, offsetFrom_eq_some_iff hdims, Nat.zero_mul, Nat.zero_add]

/-- What stands at subscripts within the dimensions is the element at their place. -/
theorem get?_of_within {a : ArrayOf α} (ha : Regular a) (hne : a.dims ≠ []) {s : List Int32}
    (hs : Within a.dims (s.map Int32.toInt)) :
    a.get? s = (a.elements[place a.dims (s.map Int32.toInt)]?).join := by
  unfold get?
  rw [(offset?_eq_some_iff ha hne).mpr ⟨hs, rfl⟩]
  rfl

/-- Where something stands, the subscripts lie within the dimensions. -/
theorem within_of_get? {a : ArrayOf α} (ha : Regular a) {s : List Int32} {x : α}
    (h : a.get? s = some x) :
    a.dims ≠ [] ∧ Within a.dims (s.map Int32.toInt) ∧
      a.elements[place a.dims (s.map Int32.toInt)]? = some (some x) := by
  unfold get? at h
  obtain ⟨i, hi, hx⟩ := Option.bind_eq_some_iff.mp h
  have hne : a.dims ≠ [] := by
    intro hnil
    unfold offset? at hi
    rw [if_pos hnil] at hi
    exact nomatch hi
  obtain ⟨hs, rfl⟩ := (offset?_eq_some_iff ha hne).mp hi
  exact ⟨hne, hs, Option.join_eq_some_iff.mp hx⟩

/-- An array is known by its dimensions and by what stands at its subscripts. -/
theorem Regular.ext {a a' : ArrayOf α} (ha : Regular a) (ha' : Regular a')
    (htype : a.elementType = a'.elementType) (hdims : a.dims = a'.dims)
    (hget : ∀ s : List Int32, Within a.dims (s.map Int32.toInt) → a.get? s = a'.get? s) :
    a = a' := by
  cases ha with
  | empty elementType =>
    cases ha' with
    | empty elementType' => rw [show elementType = elementType' from htype]
    | filled hne' _ _ => exact absurd hdims.symm hne'
  | @filled elementType dims elements hne hextents hcount =>
    cases ha' with
    | empty elementType' => exact absurd hdims hne
    | @filled elementType' dims' elements' hne' hextents' hcount' =>
      obtain rfl : elementType = elementType' := htype
      obtain rfl : dims = dims' := hdims
      have helements : elements = elements' := by
        apply List.ext_getElem (hcount.trans hcount'.symm)
        intro i hi hi'
        have hwithin := within_subscriptsAt (hcount ▸ hi)
        obtain ⟨s, hs⟩ := exists_int32 hextents hwithin
        have hplace := place_subscriptsAt (hcount ▸ hi)
        rw [← hs] at hwithin hplace
        have hat := hget s hwithin
        rw [get?_of_within (.filled hne hextents hcount) hne hwithin,
          get?_of_within (.filled hne hextents' hcount') hne hwithin, hplace] at hat
        simpa [List.getElem?_eq_getElem hi, List.getElem?_eq_getElem hi'] using hat
      rw [helements]

end ArrayOf

end StoredRoutine
