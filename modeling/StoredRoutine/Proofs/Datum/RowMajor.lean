import Mathlib.Algebra.BigOperators.Group.List.Basic
import Mathlib.Data.Set.Function
import StoredRoutine.Proofs.Marshal.Typed
import StoredRoutine.Proofs.Marshal.Words

/-!
# `StoredRoutine.Proofs.Datum.RowMajor`: subscripts number the elements in row-major order

What is built from dimensions and elements is without both or `Filled`: its dimensions are not empty
and describe as many elements as there are (`ofDims_cases`, `Filled.ofDims`). `offset?` goes through
the dimensions of a filled array from the outermost one and multiplies what it has by the next
length. What it finds is the place of the subscripts, and the places are

* ordered like the subscripts, the outermost first (`place_lt_place_iff`);
* the sum of the distances from the lower bounds, each times the stride of its dimension
  (`place_eq_strided`);
* where the nest for the array has the element (`leads_nest_iff`), and where a table that has the
  same shape puts its values (`mem_placements_iff`).

`rowMajor_of_ofDims` has all of this for whatever `ofDims` accepts.
-/

set_option autoImplicit false

namespace StoredRoutine

open Marshal (Extent Inside Leads nest placements strides volume volume_cons)

namespace ArrayOf

variable {α : Type}

/-! ### What is built -/

/-- The number of elements is the product of the lengths. -/
theorem volume_eq_prod (dims : List ArrayDim) : volume dims = (dims.map (·.len)).prod := by
  unfold volume
  exact List.prod_eq_foldl.symm

/-- An array with elements, as it can be built: the dimensions are such that an array can have them,
and their product fits a word. -/
structure Filled (a : ArrayOf α) : Prop where
  nonempty : a.dims ≠ []
  extents : ∀ d ∈ a.dims, Extent d
  count : a.elements.length = volume a.dims
  fits : volume a.dims < 2 ^ 64

theorem Filled.regular {a : ArrayOf α} (h : Filled a) : Regular a :=
  .filled h.nonempty h.extents h.count

/-- What is built has neither dimensions nor elements, or it is filled. -/
theorem ofDims_cases {elementType : TypeId} {dims : List ArrayDim} {elements : List (Option α)}
    {a : ArrayOf α} (h : ofDims elementType dims elements = .ok a) :
    (a = empty elementType ∧ elements = [] ∧ (dims = [] ∨ volume dims = 0)) ∨
      (a = ⟨elementType, dims, elements⟩ ∧ Filled a) := by
  -- the checks in their order; what passes all of them is filled
  unfold ofDims at h
  simp only at h
  split at h
  · cases h
  next count hcount =>
    obtain ⟨rfl, hfits⟩ := Marshal.foldl_checked (p := fun n => n < 2 ^ 64) hcount
    split at h
    next hempty =>
      split at h
      next hnone => exact .inl ⟨(Except.ok.inj h).symm, List.isEmpty_iff.mp hnone, hempty⟩
      · cases h
    next hsome =>
      obtain ⟨hdims, hzero⟩ := not_or.mp hsome
      split at h
      · cases h
      next hlength =>
        split at h
        · cases h
        next hupper =>
          obtain rfl := Except.ok.inj h
          refine .inr ⟨rfl, hdims, fun d hd => ⟨Marshal.volume_pos hzero d hd, ?_⟩,
            (not_not.mp hlength).symm, hfits hdims⟩
          have hd := List.any_eq_false.mp (Bool.not_eq_true _ ▸ hupper) d hd
          rw [decide_eq_true_eq] at hd
          exact Int.not_lt.mp hd

/-- An array with elements was built from its own dimensions and elements. -/
theorem filled_of_ofDims {elementType : TypeId} {dims : List ArrayDim}
    {elements : List (Option α)} {a : ArrayOf α} (h : ofDims elementType dims elements = .ok a)
    (hne : a.elements ≠ []) : a = ⟨elementType, dims, elements⟩ ∧ Filled a := by
  obtain ⟨rfl, -⟩ | hfilled := ofDims_cases h
  · exact absurd rfl hne
  · exact hfilled

/-- A filled array can be built. -/
theorem Filled.ofDims {a : ArrayOf α} (h : Filled a) :
    ofDims a.elementType a.dims a.elements = .ok a :=
  Marshal.ofDims_eq h.nonempty h.extents h.count h.fits

/-! ### The order of places -/

/-- Subscripts in thirty-two bits are ordered like the numbers they stand for. -/
theorem map_toInt_lt_iff {s t : List Int32} :
    s.map Int32.toInt < t.map Int32.toInt ↔ s < t := by
  induction s generalizing t with
  | nil => cases t <;> simp
  | cons k s ih =>
    cases t with
    | nil => simp
    | cons l t =>
      rw [List.map_cons, List.map_cons, List.cons_lt_cons_iff, List.cons_lt_cons_iff, ih,
        Int32.toInt_inj, Int32.lt_iff_toInt_lt]

/-- Of two elements the one with the lesser subscripts, the outermost compared first, has the lesser
place. -/
theorem place_lt_place_iff {dims : List ArrayDim} {s t : List Int} (hs : Within dims s)
    (ht : Within dims t) : place dims s < place dims t ↔ s < t := by
  induction hs generalizing t with
  | nil =>
    cases ht
    simp
  | @cons d k inner s hk hinner ih =>
    cases ht with
    | @cons _ l _ t hl htinner =>
      have hslt := place_lt hinner
      have htlt := place_lt htinner
      rw [place_cons, place_cons, List.cons_lt_cons_iff]
      -- the outer index decides, because no inner place reaches the stride
      rcases lt_trichotomy k l with hlt | rfl | hgt
      · have hrow := Nat.mul_le_mul_right (volume inner)
          (show (k - d.lower.toInt).toNat + 1 ≤ (l - d.lower.toInt).toNat by omega)
        rw [Nat.succ_mul] at hrow
        exact iff_of_true (by omega) (.inl hlt)
      · rw [Nat.add_lt_add_iff_left, ih htinner]
        simp
      · have hrow := Nat.mul_le_mul_right (volume inner)
          (show (l - d.lower.toInt).toNat + 1 ≤ (k - d.lower.toInt).toNat by omega)
        rw [Nat.succ_mul] at hrow
        refine iff_of_false (by omega) ?_
        rintro (hlt | ⟨rfl, -⟩)
        · exact absurd hlt (Int.lt_asymm hgt)
        · exact Int.lt_irrefl _ hgt

/-! ### Strides -/

/-- The distances of the subscripts from the lower bounds, each times the stride of its
dimension. -/
def strided (dims : List ArrayDim) (subscripts : List Int) : Nat :=
  (List.zipWith (fun index stride => index * stride)
    (List.zipWith (fun (d : ArrayDim) k => (k - d.lower.toInt).toNat) dims subscripts)
    (strides dims)).sum

/-- Going inwards with a product and going by strides leads to the same place. -/
theorem place_eq_strided (dims : List ArrayDim) (subscripts : List Int) :
    place dims subscripts = strided dims subscripts := by
  induction dims generalizing subscripts with
  | nil => rfl
  | cons d inner ih =>
    cases subscripts with
    | nil => rfl
    | cons k subscripts =>
      rw [place_cons, ih]
      unfold strided
      rw [Marshal.strides_cons, List.zipWith_cons_cons, List.zipWith_cons_cons, List.sum_cons]

/-! ### Nests of tables -/

/-- A chain of one key leads to a value under this key. -/
theorem leads_singleton {entries : ScriptTable} {k : Int} {v : ScriptValue} :
    Leads entries [k] v ↔ ∃ key : Int64, key.toInt = k ∧ (.int key, v) ∈ entries := by
  rw [Marshal.leads_iff]
  constructor
  · rintro ⟨key, w, hmem, ⟨hchain, rfl⟩ | ⟨sub, rest, -, hchain, hrest⟩⟩
    · exact ⟨key, (List.cons.inj hchain).1.symm, hmem⟩
    · exact absurd (List.cons.inj hchain).2.symm hrest.ne_nil
  · rintro ⟨key, rfl, hmem⟩
    exact ⟨key, v, hmem, .inl ⟨rfl, rfl⟩⟩

/-- A longer chain goes on in a table under its first key. -/
theorem leads_cons {entries : ScriptTable} {k : Int} {rest : List Int} (hrest : rest ≠ [])
    {v : ScriptValue} :
    Leads entries (k :: rest) v ↔
      ∃ sub : ScriptTable,
        (∃ key : Int64, key.toInt = k ∧ (ScriptKey.int key, .table sub) ∈ entries) ∧
          Leads sub rest v := by
  rw [Marshal.leads_iff]
  constructor
  · rintro ⟨key, w, hmem, ⟨hchain, -⟩ | ⟨sub, rest', rfl, hchain, hsub⟩⟩
    · exact absurd (List.cons.inj hchain).2 hrest
    · obtain ⟨rfl, rfl⟩ := List.cons.inj hchain
      exact ⟨sub, ⟨key, rfl, hmem⟩, hsub⟩
  · rintro ⟨sub, ⟨key, rfl, hmem⟩, hsub⟩
    exact ⟨key, .table sub, hmem, .inr ⟨sub, rest, rfl, rfl, hsub⟩⟩

/-- Among entries under the subscripts of a dimension, one for each of some indexes, a key has the
entry of its index. -/
theorem mem_map_subscript {ι : Type} {d : ArrayDim} (hd : Extent d) {indexed : List ι}
    {f : ι → Nat} {g : ι → ScriptValue} (hindex : ∀ x ∈ indexed, f x < d.len)
    {k : Int} {w : ScriptValue} :
    (∃ key : Int64, key.toInt = k ∧
      (ScriptKey.int key, w) ∈ indexed.map fun x => (Marshal.subscript d (f x), g x)) ↔
      (d.lower.toInt ≤ k ∧ k ≤ d.lower.toInt + d.len - 1) ∧
        ∃ x ∈ indexed, f x = (k - d.lower.toInt).toNat ∧ g x = w := by
  constructor
  · rintro ⟨key, rfl, hmem⟩
    obtain ⟨x, hx, heq⟩ := List.mem_map.mp hmem
    obtain ⟨hkey, rfl⟩ := Prod.mk.inj heq
    rw [Marshal.subscript_eq] at hkey
    obtain rfl := ScriptKey.int.inj hkey
    have hlt := hindex x hx
    rw [Marshal.toInt_subscriptKey hd hlt]
    exact ⟨by omega, x, hx, by omega, rfl⟩
  · rintro ⟨hk, x, hx, hix, rfl⟩
    refine ⟨Marshal.subscriptKey d (f x), ?_, List.mem_map.mpr ⟨x, hx, rfl⟩⟩
    rw [Marshal.toInt_subscriptKey hd (hindex x hx)]
    omega

/-- The nest of a list of elements, read with strides: an element is looked up at the place of the
outer dimensions and its own index times the stride. -/
def gather : List ArrayDim → List Nat → Nat → List (Option ScriptValue) → ScriptTable
  | [d], stride :: _, base, values =>
    (List.range d.len).filterMap fun i =>
      (values[base + i * stride]?).join.map fun v => (Marshal.subscript d i, v)
  | d :: inner, stride :: steps, base, values =>
    (List.range d.len).map fun i =>
      (Marshal.subscript d i, .table (gather inner steps (base + i * stride) values))
  | _, _, _, _ => []

/-- The entries of the innermost dimension, by index. -/
theorem leafEntries_eq_range (d : ArrayDim) (values : List (Option ScriptValue)) :
    Marshal.leafEntries d values = (List.range values.length).filterMap fun i =>
      (values[i]?).join.map fun v => (Marshal.subscript d i, v) := by
  have hindexed : values.zipIdx =
      (List.range values.length).map fun i => ((values[i]?).join, i) := by
    apply List.ext_getElem
    · simp
    · intro i hi hi'
      have hlt : i < values.length := by simpa using hi
      simp [List.getElem?_eq_getElem hlt]
  unfold Marshal.leafEntries
  rw [hindexed, List.filterMap_map]
  rfl

/-- With the strides of the dimensions, the elements that are looked up from a place on are those
that the nest is made of. -/
theorem gather_eq_nest {dims : List ArrayDim} {base : Nat} {values : List (Option ScriptValue)}
    (hroom : base + volume dims ≤ values.length) :
    gather dims (strides dims) base values =
      nest dims ((values.drop base).take (volume dims)) := by
  -- the place to look from grows on the way in, so it is left open
  induction dims generalizing base with
  | nil => rfl
  | cons d inner ih =>
    rw [Marshal.strides_cons]
    rw [volume_cons] at hroom ⊢
    cases inner with
    | nil =>
      have hone : volume [] = 1 := rfl
      rw [hone, Nat.mul_one] at hroom ⊢
      have hlength : ((values.drop base).take d.len).length = d.len := by
        rw [List.length_take, List.length_drop]
        omega
      unfold nest gather
      rw [List.take_take, Nat.min_self, leafEntries_eq_range, hlength]
      refine List.filterMap_congr fun i hi => ?_
      rw [Nat.mul_one, List.getElem?_take_of_lt (List.mem_range.mp hi), List.getElem?_drop]
    | cons e inner =>
      rw [Marshal.nest_cons]
      refine List.map_congr_left fun i hi => ?_
      have hrow := Nat.mul_le_mul_right (volume (e :: inner)) (List.mem_range.mp hi)
      rw [Nat.succ_mul] at hrow
      -- the elements below one subscript are those from its place on, as many as the inner volume
      have hchunk : Marshal.chunk (volume (e :: inner)) i
          ((values.drop base).take (d.len * volume (e :: inner))) =
            (values.drop (base + i * volume (e :: inner))).take (volume (e :: inner)) := by
        unfold Marshal.chunk
        rw [List.drop_take, List.take_take, List.drop_drop, Nat.min_eq_left (by omega)]
      rw [hchunk, ih (by omega)]

/-- The nest of a list of elements has each element that is present under the subscripts whose place
it has, and no others. -/
theorem leads_nest_iff {dims : List ArrayDim} (hne : dims ≠ []) (hdims : ∀ d ∈ dims, Extent d)
    {values : List (Option ScriptValue)} (hcount : values.length = volume dims)
    {subscripts : List Int} (hlength : subscripts.length = dims.length) {v : ScriptValue} :
    Leads (nest dims values) subscripts v ↔
      Within dims subscripts ∧ values[place dims subscripts]? = some (some v) := by
  induction dims generalizing values subscripts with
  | nil => exact absurd rfl hne
  | cons d inner ih =>
    obtain ⟨k, rest, rfl⟩ := List.exists_cons_of_length_eq_add_one hlength
    have hd := hdims d List.mem_cons_self
    have hrest : rest.length = inner.length := Nat.succ.inj hlength
    rw [volume_cons] at hcount
    rw [within_cons, place_cons]
    cases inner with
    | nil =>
      obtain rfl := List.eq_nil_of_length_eq_zero hrest
      have hcount : values.length = d.len := hcount.trans (Nat.mul_one d.len)
      have hplace : (k - d.lower.toInt).toNat * volume [] + place [] [] =
          (k - d.lower.toInt).toNat := Nat.mul_one _
      rw [leads_singleton, Marshal.nest_single hcount,
        mem_map_subscript hd (f := Prod.fst) (g := Prod.snd)
          fun p hp => hcount ▸ Marshal.lt_of_mem_present hp, hplace, ← Marshal.mem_present]
      constructor
      · rintro ⟨hk, ⟨i, w⟩, hmem, rfl, rfl⟩
        exact ⟨⟨hk, .nil⟩, hmem⟩
      · rintro ⟨⟨hk, -⟩, hmem⟩
        exact ⟨hk, _, hmem, rfl, rfl⟩
    | cons e inner =>
      have hinner : ∀ x ∈ e :: inner, Extent x := fun x hx => hdims x (List.mem_cons_of_mem d hx)
      have hne : rest ≠ [] := List.ne_nil_of_length_pos (hrest ▸ Nat.succ_pos _)
      -- what the table at one subscript leads to, by the induction over the dimensions
      have hchunk : ∀ i, i < d.len →
          (Leads (nest (e :: inner) (Marshal.chunk (volume (e :: inner)) i values)) rest v ↔
            Within (e :: inner) rest ∧
              values[i * volume (e :: inner) + place (e :: inner) rest]? = some (some v)) := by
        intro i hi
        rw [ih (List.cons_ne_nil e inner) hinner (Marshal.length_chunk hcount hi) hrest]
        refine and_congr_right fun hwithin => ?_
        rw [Marshal.getElem?_chunk values (place_lt hwithin)]
      simp only [leads_cons hne, Marshal.nest_cons,
        mem_map_subscript hd (f := fun i => i) fun i hi => List.mem_range.mp hi]
      constructor
      · rintro ⟨sub, ⟨hk, i, hi, rfl, hsub⟩, hleads⟩
        obtain rfl := ScriptValue.table.inj hsub
        obtain ⟨hwithin, hat⟩ := (hchunk _ (List.mem_range.mp hi)).mp hleads
        exact ⟨⟨hk, hwithin⟩, hat⟩
      · rintro ⟨⟨hk, hwithin⟩, hat⟩
        have hi : (k - d.lower.toInt).toNat < d.len := by omega
        exact ⟨_, ⟨hk, _, List.mem_range.mpr hi, rfl, rfl⟩, (hchunk _ hi).mpr ⟨hwithin, hat⟩⟩

/-- A chain through a table that lies within the dimensions consists of subscripts. -/
theorem within_of_inside {dims : List ArrayDim} {entries : ScriptTable}
    (hinside : Inside dims (.table entries)) {chain : List Int} {v : ScriptValue}
    (hchain : Leads entries chain v) (hlength : chain.length = dims.length) :
    Within dims chain := by
  induction hchain generalizing dims with
  | @here entries k v hmem =>
    obtain ⟨d, rfl⟩ := List.length_eq_one_iff.mp hlength.symm
    exact within_cons.mpr ⟨(hinside k v hmem).1, .nil⟩
  | @through entries sub k chain v hmem _ ih =>
    obtain ⟨d, inner, rfl⟩ := List.exists_cons_of_length_eq_add_one hlength.symm
    obtain ⟨hk, hsub⟩ := hinside k _ hmem
    exact within_cons.mpr ⟨hk, ih hsub (Nat.succ.inj hlength)⟩

/-- A table lies within the dimensions that are found for it. -/
theorem inside_of_scan {maxDims : Nat} {leafTables : Bool} {entries : ScriptTable}
    {dims : List ArrayDim} (h : Marshal.scan maxDims leafTables entries = .ok dims) :
    Inside dims (.table entries) := by
  unfold Marshal.scan at h
  cases hscan : Marshal.scanEntries maxDims leafTables 0 none [] entries with
  | error f =>
    rw [hscan] at h
    exact nomatch h
  | ok found =>
    obtain ⟨depth, bounds⟩ := found
    rw [hscan] at h
    obtain rfl := Except.ok.inj h
    cases depth with
    | none => trivial
    | some depth => exact (Marshal.bounded_scanEntries hscan).2.inside

/-- The values of a table are put in the places of the chains that lead to them, if it lies within
the dimensions. -/
theorem mem_placements_iff {dims : List ArrayDim} (hne : dims ≠ []) {entries : ScriptTable}
    (hinside : Inside dims (.table entries)) {i : Nat} {v : ScriptValue} :
    (i, v) ∈ placements dims entries ↔
      ∃ chain, Within dims chain ∧ place dims chain = i ∧ Leads entries chain v := by
  unfold placements
  rw [Marshal.mem_placementsFrom, and_iff_right hne]
  constructor
  · rintro ⟨chain, hlength, hchain, rfl⟩
    exact ⟨chain, within_of_inside hinside hchain hlength, (Nat.zero_add _).symm, hchain⟩
  · rintro ⟨chain, hwithin, rfl, hchain⟩
    exact ⟨chain, hwithin.length_eq.symm, hchain, (Nat.zero_add _).symm⟩

/-! ### Row-major order -/

/-- The subscripts of an array number its elements in row-major order, and this is the order in
which an array is read into a nest of tables and filled from one. -/
structure RowMajor (a : ArrayOf α) : Prop where
  nonempty : a.dims ≠ []
  positive : ∀ d ∈ a.dims, 0 < d.len
  product : (a.dims.map (·.len)).prod = a.elements.length
  defined : ∀ s, (a.offset? s).isSome ↔ Within a.dims (s.map Int32.toInt)
  bijective : Set.BijOn a.offset? {s | Within a.dims (s.map Int32.toInt)}
    (Set.image some (Set.Iio a.elements.length))
  ordered : ∀ s t i j, a.offset? s = some i → a.offset? t = some j → (i < j ↔ s < t)
  element : ∀ s i, a.offset? s = some i → ∃ h : i < a.elements.length, a.get? s = a.elements[i]
  byStrides : ∀ s i, a.offset? s = some i → strided a.dims (s.map Int32.toInt) = i
  gathered : ∀ values : List (Option ScriptValue), values.length = a.elements.length →
    gather a.dims (strides a.dims) 0 values = nest a.dims values ∧
      ∀ s v, s.length = a.dims.length →
        (Leads (nest a.dims values) (s.map Int32.toInt) v ↔
          ∃ i, a.offset? s = some i ∧ values[i]? = some (some v))
  placed : ∀ maxDims leafTables entries, Marshal.scan maxDims leafTables entries = .ok a.dims →
    Marshal.fillWords? a.dims (strides a.dims) 0 (.table entries) =
        some (placements a.dims entries) ∧
      ∀ i v, (i, v) ∈ placements a.dims entries ↔
        ∃ s, a.offset? s = some i ∧ Leads entries (s.map Int32.toInt) v

section Filled

variable {a : ArrayOf α}

/-- Subscripts that are found number the element at their place. -/
theorem Filled.offset?_eq_some (h : Filled a) {s : List Int32} {i : Nat} :
    a.offset? s = some i ↔
      Within a.dims (s.map Int32.toInt) ∧ place a.dims (s.map Int32.toInt) = i :=
  offset?_eq_some_iff h.regular h.nonempty

/-- Each element has subscripts, and no other element has them. -/
theorem Filled.bijOn_offset? (h : Filled a) :
    Set.BijOn a.offset? {s | Within a.dims (s.map Int32.toInt)}
      (Set.image some (Set.Iio a.elements.length)) := by
  refine ⟨fun s hs => ?_, fun s hs t ht heq => ?_, ?_⟩
  · exact ⟨_, h.count ▸ place_lt hs, (h.offset?_eq_some.mpr ⟨hs, rfl⟩).symm⟩
  · -- a place gives its subscripts back
    have hplace := (h.offset?_eq_some.mp (heq.trans (h.offset?_eq_some.mpr ⟨ht, rfl⟩))).2
    have hsame := congrArg (subscriptsAt a.dims) hplace
    rw [subscriptsAt_place hs, subscriptsAt_place ht] at hsame
    exact List.map_injective_iff.mpr (fun _ _ => Int32.toInt_inj.mp) hsame
  · rintro _ ⟨i, hi, rfl⟩
    have hi : i < volume a.dims := h.count ▸ hi
    have hwithin := within_subscriptsAt hi
    obtain ⟨s, hs⟩ := exists_int32 h.extents hwithin
    rw [← hs] at hwithin
    exact ⟨s, hwithin, h.offset?_eq_some.mpr ⟨hwithin, hs ▸ place_subscriptsAt hi⟩⟩

/-- The nest of as many elements has under a list of subscripts the element that they number. -/
theorem Filled.leads_nest_iff_offset? (h : Filled a) {values : List (Option ScriptValue)}
    (hcount : values.length = volume a.dims) {s : List Int32} (hlength : s.length = a.dims.length)
    {v : ScriptValue} :
    Leads (nest a.dims values) (s.map Int32.toInt) v ↔
      ∃ i, a.offset? s = some i ∧ values[i]? = some (some v) := by
  rw [leads_nest_iff h.nonempty h.extents hcount ((List.length_map _).trans hlength)]
  constructor
  · exact fun ⟨hs, hat⟩ => ⟨_, h.offset?_eq_some.mpr ⟨hs, rfl⟩, hat⟩
  · rintro ⟨i, hi, hat⟩
    obtain ⟨hs, rfl⟩ := h.offset?_eq_some.mp hi
    exact ⟨hs, hat⟩

/-- A table that lies within the dimensions has its values at the places of their subscripts. -/
theorem Filled.mem_placements_iff_offset? (h : Filled a) {entries : ScriptTable}
    (hinside : Inside a.dims (.table entries)) {i : Nat} {v : ScriptValue} :
    (i, v) ∈ placements a.dims entries ↔
      ∃ s, a.offset? s = some i ∧ Leads entries (s.map Int32.toInt) v := by
  rw [mem_placements_iff h.nonempty hinside]
  constructor
  · rintro ⟨chain, hwithin, rfl, hchain⟩
    obtain ⟨s, rfl⟩ := exists_int32 h.extents hwithin
    exact ⟨s, h.offset?_eq_some.mpr ⟨hwithin, rfl⟩, hchain⟩
  · rintro ⟨s, hi, hchain⟩
    obtain ⟨hs, rfl⟩ := h.offset?_eq_some.mp hi
    exact ⟨_, hs, rfl, hchain⟩

/-- Filled arrays are in row-major order. -/
theorem Filled.rowMajor (h : Filled a) : RowMajor a := by
  constructor
  case nonempty => exact h.nonempty
  case positive => exact fun d hd => (h.extents d hd).pos
  case product => rw [← volume_eq_prod, h.count]
  case defined =>
    intro s
    rw [Option.isSome_iff_exists]
    exact ⟨fun ⟨i, hi⟩ => (h.offset?_eq_some.mp hi).1,
      fun hs => ⟨_, h.offset?_eq_some.mpr ⟨hs, rfl⟩⟩⟩
  case bijective => exact h.bijOn_offset?
  case ordered =>
    intro s t i j hi hj
    obtain ⟨hs, rfl⟩ := h.offset?_eq_some.mp hi
    obtain ⟨ht, rfl⟩ := h.offset?_eq_some.mp hj
    rw [place_lt_place_iff hs ht, map_toInt_lt_iff]
  case element =>
    intro s i hi
    obtain ⟨hs, rfl⟩ := h.offset?_eq_some.mp hi
    have hlt := h.count ▸ place_lt hs
    refine ⟨hlt, ?_⟩
    rw [get?_of_within h.regular h.nonempty hs, List.getElem?_eq_getElem hlt]
    rfl
  case byStrides =>
    intro s i hi
    rw [← place_eq_strided]
    exact (h.offset?_eq_some.mp hi).2
  case gathered =>
    intro values hvalues
    have hcount : values.length = volume a.dims := hvalues.trans h.count
    refine ⟨?_, fun s v hlength => h.leads_nest_iff_offset? hcount hlength⟩
    rw [gather_eq_nest (by omega), List.drop_zero, ← hcount, List.take_length]
  case placed =>
    intro maxDims leafTables entries hscan
    have hinside := inside_of_scan hscan
    refine ⟨?_, fun i v => h.mem_placements_iff_offset? hinside⟩
    rw [Marshal.placements_eq h.nonempty]
    exact Marshal.fillWords?_eq h.extents hinside ((Nat.zero_add _).symm ▸ h.fits.le)

end Filled

/-- Whatever elements an array was built with, its subscripts number them in row-major order. -/
theorem rowMajor_of_ofDims {elementType : TypeId} {dims : List ArrayDim}
    {elements : List (Option α)} {a : ArrayOf α} (h : ofDims elementType dims elements = .ok a)
    (hne : a.elements ≠ []) : RowMajor a :=
  (filled_of_ofDims h hne).2.rowMajor

/-- Two rows under the subscripts -3 and -2, with columns from 5 on. -/
def grid : ArrayOf Char where
  elementType := 18
  dims := [⟨2, -3⟩, ⟨3, 5⟩]
  elements := [some 'a', none, some 'c', some 'd', none, some 'f']

theorem rowMajor_grid :
    ofDims 18 grid.dims grid.elements = .ok grid ∧ grid.elements ≠ [] ∧ RowMajor grid ∧
      grid.offset? [-2, 5] = some 3 := by
  have hbuilt : ofDims 18 grid.dims grid.elements = .ok grid := rfl
  have hsome : grid.elements ≠ [] := by decide
  exact ⟨hbuilt, hsome, rowMajor_of_ofDims hbuilt hsome, by decide⟩

end ArrayOf

end StoredRoutine
