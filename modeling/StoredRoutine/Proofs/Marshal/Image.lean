import StoredRoutine.Proofs.Datum.Size
import StoredRoutine.Proofs.Marshal.Narrow
import StoredRoutine.Proofs.Marshal.Tables

/-!
# `StoredRoutine.Proofs.Marshal.Image`: what an array of scalars comes back as

Every array of scalars has a script form, and the script form is accepted where the array came from.
What comes back is not always the array itself: NULLs at the margins of the last dimension leave no
trace. `toRelational_toScript_array` says exactly what does come back (`Image`): the empty array if
there are only NULLs, and otherwise the array between the least and the greatest last subscript of
an element (`Narrowed`).

The argument goes through the narrowed array. It has the same script form as the array, and its
shape can be seen from outside, so it comes back itself.
-/

set_option autoImplicit false

namespace StoredRoutine.Marshal

open ArrayOf (Regular Within place place_lt place_subscriptsAt within_subscriptsAt exists_int32
  get?_of_within within_of_get? storedSize_le)
open Resolving

/-! ### Last subscripts -/

/-- The last subscripts of the elements that are not NULL. -/
def lastSubscripts (a : ArrayValue) : Set Int :=
  {k | ∃ s x, a.get? s = some x ∧ (s.map Int32.toInt).getLast? = some k}

section Filled

variable {element : TypeId} {dims : List ArrayDim} {elements : List (Option Datum)}

theorem mem_lastSubscripts (hne : dims ≠ []) (hdims : ∀ d ∈ dims, Extent d)
    (hcount : elements.length = volume dims) {k : Int} :
    k ∈ lastSubscripts ⟨element, dims, elements⟩ ↔
      ∃ ks x, Within dims ks ∧ elements[place dims ks]? = some (some x) ∧ ks.getLast? = some k := by
  have hregular : Regular (⟨element, dims, elements⟩ : ArrayValue) := .filled hne hdims hcount
  constructor
  · rintro ⟨s, x, hx, hk⟩
    obtain ⟨-, hs, hat⟩ := within_of_get? hregular hx
    exact ⟨_, x, hs, hat, hk⟩
  · rintro ⟨ks, x, hks, hat, hk⟩
    obtain ⟨s, rfl⟩ := exists_int32 hdims hks
    refine ⟨s, x, ?_, hk⟩
    rw [get?_of_within hregular hne hks]
    exact Option.join_eq_some_iff.mpr hat

/-- The last subscript lies within the last dimension. -/
theorem within_getLast {ks : List Int} {d : ArrayDim} {k : Int} (h : Within dims ks)
    (hd : dims.getLast? = some d) (hk : ks.getLast? = some k) :
    d.lower.toInt ≤ k ∧ k ≤ d.lower.toInt + d.len - 1 := by
  induction h with
  | nil => exact nomatch hd
  | cons hbounds hrest ih =>
    cases hrest with
    | nil =>
      obtain rfl := Option.some.inj hd
      obtain rfl := Option.some.inj hk
      exact hbounds
    | cons _ _ =>
      rw [List.getLast?_cons_cons] at hd hk
      exact ih hd hk

/-- The last subscript of an element lies within the last dimension. -/
theorem mem_bounds_of_lastSubscripts (hne : dims ≠ []) (hdims : ∀ d ∈ dims, Extent d)
    (hcount : elements.length = volume dims) {d : ArrayDim} (hd : dims.getLast? = some d) {k : Int}
    (hk : k ∈ lastSubscripts ⟨element, dims, elements⟩) :
    d.lower.toInt ≤ k ∧ k ≤ d.lower.toInt + d.len - 1 := by
  obtain ⟨ks, x, hks, -, hlast⟩ := (mem_lastSubscripts hne hdims hcount).mp hk
  exact within_getLast hks hd hlast

/-- An array with an element that is not NULL has a least and a greatest last subscript. -/
theorem exists_lastSubscripts (hne : dims ≠ []) (hdims : ∀ d ∈ dims, Extent d)
    (hcount : elements.length = volume dims) {x : Datum} (hx : some x ∈ elements) :
    ∃ first last, IsLeast (lastSubscripts ⟨element, dims, elements⟩) first ∧
      IsGreatest (lastSubscripts ⟨element, dims, elements⟩) last ∧ Inner first last dims := by
  obtain ⟨d, hd⟩ : ∃ d, dims.getLast? = some d := ⟨_, List.getLast?_eq_some_getLast hne⟩
  have hmem : ∀ {k}, k ∈ lastSubscripts ⟨element, dims, elements⟩ ↔ _ :=
    mem_lastSubscripts hne hdims hcount
  have hbounds : ∀ k ∈ lastSubscripts ⟨element, dims, elements⟩,
      d.lower.toInt ≤ k ∧ k ≤ d.lower.toInt + d.len - 1 := fun k hk =>
    mem_bounds_of_lastSubscripts hne hdims hcount hd hk
  have hsome : ∃ k, k ∈ lastSubscripts ⟨element, dims, elements⟩ := by
    obtain ⟨i, hi⟩ := List.mem_iff_getElem?.mp hx
    have hlt : i < volume dims := hcount ▸ (List.getElem?_eq_some_iff.mp hi).1
    have hwithin := within_subscriptsAt hlt
    have hnil : ArrayOf.subscriptsAt dims i ≠ [] := by
      intro hnil
      rw [hnil] at hwithin
      cases hwithin
      exact hne rfl
    exact ⟨_, hmem.mpr ⟨_, x, hwithin, by rwa [place_subscriptsAt hlt],
      List.getLast?_eq_some_getLast hnil⟩⟩
  -- a set of numbers with bounds that is not empty has a least and a greatest one
  obtain ⟨first, hfirst, hleast⟩ :=
    Int.exists_least_of_bdd ⟨d.lower.toInt, fun k hk => (hbounds k hk).1⟩ hsome
  obtain ⟨last, hlast, hgreatest⟩ :=
    Int.exists_greatest_of_bdd ⟨d.lower.toInt + d.len - 1, fun k hk => (hbounds k hk).2⟩ hsome
  refine ⟨first, last, ⟨hfirst, hleast⟩, ⟨hlast, hgreatest⟩, hleast last hlast, ?_, ?_⟩
  · intro d' hd'
    obtain rfl := Option.some.inj (hd.symm.trans hd')
    exact (hbounds first hfirst).1
  · intro d' hd'
    obtain rfl := Option.some.inj (hd.symm.trans hd')
    exact (hbounds last hlast).2

end Filled

/-! ### The image -/

/-- An array between the least and the greatest last subscript of the elements of another one. -/
structure Narrowed (a r : ArrayValue) : Prop where
  elementType : r.elementType = a.elementType
  regular : Regular r
  length : r.dims.length = a.dims.length
  outer : r.dims.dropLast = a.dims.dropLast
  least : ∀ d, r.dims.getLast? = some d → IsLeast (lastSubscripts a) d.lower.toInt
  greatest : ∀ d, r.dims.getLast? = some d → IsGreatest (lastSubscripts a) d.upper.toInt
  within : ∀ s : List Int32, Within r.dims (s.map Int32.toInt) → Within a.dims (s.map Int32.toInt)
  same : ∀ s : List Int32, Within r.dims (s.map Int32.toInt) → r.get? s = a.get? s

/-- What comes back of an array. -/
structure Image (a r : ArrayValue) : Prop where
  blank : (∀ x, some x ∉ a.elements) → r = ArrayOf.empty a.elementType
  narrowed : ∀ x, some x ∈ a.elements → Narrowed a r

/-- Narrowing an array gives the narrowed array. -/
theorem narrowed_narrow {element : TypeId} {dims : List ArrayDim} {elements : List (Option Datum)}
    (hne : dims ≠ []) (hdims : ∀ d ∈ dims, Extent d) (hcount : elements.length = volume dims)
    {first last : Int} (hfirst : IsLeast (lastSubscripts ⟨element, dims, elements⟩) first)
    (hlast : IsGreatest (lastSubscripts ⟨element, dims, elements⟩) last)
    (h : Inner first last dims) :
    Narrowed ⟨element, dims, elements⟩
      ⟨element, narrowDims first last dims, narrow first last dims elements⟩ := by
  have hextents := extents_narrowDims hne hdims h
  have hregular : Regular (⟨element, dims, elements⟩ : ArrayValue) := .filled hne hdims hcount
  have hregular' : Regular
      (⟨element, narrowDims first last dims, narrow first last dims elements⟩ : ArrayValue) :=
    .filled (narrowDims_ne_nil first last dims) hextents (length_narrow hne h hcount)
  have hend := getLast?_narrowDims first last dims
  obtain ⟨hlower, -, hupper⟩ := h.range hne hdims
  constructor
  case elementType => rfl
  case regular => exact hregular'
  case length => exact length_narrowDims first last hne
  case outer => exact List.dropLast_concat
  case least =>
    intro d hd
    obtain rfl := Option.some.inj (hend.symm.trans hd)
    rwa [hlower]
  case greatest =>
    intro d hd
    obtain rfl := Option.some.inj (hend.symm.trans hd)
    rwa [ArrayDim.toInt_upper (hextents _ (List.mem_of_getLast? hd)), hupper]
  case within => exact fun s hs => ((within_narrowDims hne hdims h).mp hs).1
  -- an element has the same subscripts in both arrays, at another place
  case same =>
    intro s hs
    rw [get?_of_within hregular' (narrowDims_ne_nil first last dims) hs,
      get?_of_within hregular hne ((within_narrowDims hne hdims h).mp hs).1]
    exact congrArg Option.join (getElem?_narrow hne hdims h hcount hs)

/-- If elements stand at both ends of the last dimension, it is not narrowed. -/
theorem Narrowed.dims_eq {element : TypeId} {dims : List ArrayDim} {elements : List (Option Datum)}
    {r : ArrayValue} (h : Narrowed ⟨element, dims, elements⟩ r) (hne : dims ≠ [])
    (hdims : ∀ d ∈ dims, Extent d) (hcount : elements.length = volume dims) {d : ArrayDim}
    (hd : dims.getLast? = some d) (hlo : d.lower.toInt ∈ lastSubscripts ⟨element, dims, elements⟩)
    (hhi : d.upper.toInt ∈ lastSubscripts ⟨element, dims, elements⟩) : r.dims = dims := by
  have hrne : r.dims ≠ [] := by
    intro hnil
    have hlength := h.length
    rw [hnil] at hlength
    exact hne (List.eq_nil_of_length_eq_zero hlength.symm)
  obtain ⟨d', hd'⟩ : ∃ d', r.dims.getLast? = some d' := ⟨_, List.getLast?_eq_some_getLast hrne⟩
  have hextent' : Extent d' := by
    cases h.regular with
    | empty _ => exact absurd rfl hrne
    | filled _ hextents _ => exact hextents d' (List.mem_of_getLast? hd')
  have hleast := h.least d' hd'
  have hgreatest := h.greatest d' hd'
  rw [ArrayDim.toInt_upper hextent'] at hgreatest
  rw [ArrayDim.toInt_upper (hdims d (List.mem_of_getLast? hd))] at hhi
  -- the last subscripts reach from one end to the other, and so does the narrowed dimension
  have hlowest := hleast.2 hlo
  have hhighest := hgreatest.2 hhi
  have hfrom := (mem_bounds_of_lastSubscripts hne hdims hcount hd hleast.1).1
  have hto := (mem_bounds_of_lastSubscripts hne hdims hcount hd hgreatest.1).2
  have hlower : d'.lower = d.lower := Int32.toInt_inj.mp (by omega)
  have hlen : d'.len = d.len := by
    rw [hlower] at hhighest hto
    omega
  have hsame : d' = d := by
    obtain ⟨len', lower'⟩ := d'
    obtain ⟨len, lower⟩ := d
    simp only at hlower hlen
    rw [hlower, hlen]
  calc r.dims
      = r.dims.dropLast ++ [d'] := (List.dropLast_append_getLast? d' hd').symm
    _ = dims.dropLast ++ [d] := by rw [h.outer, hsame]
    _ = dims := List.dropLast_append_getLast? d hd

/-- An array comes back itself if and only if it is empty, or elements that are not NULL stand at
the first and at the last subscript of its last dimension. -/
theorem Image.eq_iff {a r : ArrayValue} (ha : Regular a) (h : Image a r) :
    r = a ↔ a.elements = [] ∨ ∃ d, a.dims.getLast? = some d ∧
      d.lower.toInt ∈ lastSubscripts a ∧ d.upper.toInt ∈ lastSubscripts a := by
  cases ha with
  | empty element =>
    rw [h.blank fun x hx => absurd hx List.not_mem_nil]
    exact ⟨fun _ => Or.inl rfl, fun _ => rfl⟩
  | @filled element dims elements hne hdims hcount =>
    have hregular : Regular (⟨element, dims, elements⟩ : ArrayValue) := .filled hne hdims hcount
    obtain ⟨d, hd⟩ : ∃ d, dims.getLast? = some d := ⟨_, List.getLast?_eq_some_getLast hne⟩
    constructor
    · rintro rfl
      by_cases hsome : ∃ x, some x ∈ elements
      · obtain ⟨x, hx⟩ := hsome
        have hself := h.narrowed x hx
        exact Or.inr ⟨d, hd, (hself.least d hd).1, (hself.greatest d hd).1⟩
      · have hblank := h.blank fun x hx => hsome ⟨x, hx⟩
        exact Or.inl (congrArg ArrayOf.elements hblank)
    · rintro (hnil | ⟨d', hd', hlo, hhi⟩)
      · -- an array that has dimensions is not empty
        have hpos := volume_pos_of_extents hdims
        have hzero : elements.length = 0 := List.length_eq_zero_iff.mpr hnil
        omega
      · obtain rfl : d = d' := Option.some.inj (hd.symm.trans hd')
        obtain ⟨ks, x, -, hat, -⟩ := (mem_lastSubscripts hne hdims hcount).mp hlo
        have hrest := h.narrowed x (List.mem_of_getElem? hat)
        have heq := hrest.dims_eq hne hdims hcount hd hlo hhi
        exact hrest.regular.ext hregular hrest.elementType heq hrest.same

/-! ### There and back -/

/-- What the limits allow of an array. -/
structure Affordable (b : Border) (a : ArrayValue) : Prop where
  maxDims : a.dims.length ≤ b.options.maxArrayDims
  slots : a.elements.length * slotBytes ≤ b.options.maxAllocSize
  size : ∀ len align, storage b.catalog a.elementType = .ok (len, align) →
    a.encodedSizeFor len align ≤ b.options.maxAllocSize

variable {b : Border} {element t : TypeId} {type etype : TypeDescriptor} {m m' em : Int32}

/-- The narrowed array fits if the array is affordable. -/
theorem Affordable.narrow {dims : List ArrayDim} {elements : List (Option Datum)}
    (h : Affordable b ⟨element, dims, elements⟩) (hne : dims ≠ []) (hdims : ∀ d ∈ dims, Extent d)
    (hcount : elements.length = volume dims) {first last : Int}
    (hfirst : first ∈ lastSubscripts ⟨element, dims, elements⟩)
    (hlast : last ∈ lastSubscripts ⟨element, dims, elements⟩) (hinner : Inner first last dims) :
    ArrayFits b element (narrowDims first last dims) (Marshal.narrow first last dims elements) := by
  -- what is left is part of what was there, and so are the sizes
  have hsub := narrow_sublist first last hcount
  constructor
  case nonempty => exact narrowDims_ne_nil first last dims
  case maxDims =>
    rw [length_narrowDims first last hne]
    exact h.maxDims
  case extents => exact extents_narrowDims hne hdims hinner
  case count => exact length_narrow hne hinner hcount
  case edges =>
    exact edgesPresent_narrow hne hdims hinner hcount
      ((mem_lastSubscripts hne hdims hcount).mp hfirst)
      ((mem_lastSubscripts hne hdims hcount).mp hlast)
  case slots => exact Nat.le_trans (Nat.mul_le_mul_right _ hsub.length_le) h.slots
  case size =>
    intro len align hstorage
    refine Nat.le_trans (storedSize_le (length_narrowDims first last hne).le ?_ len align)
      (h.size len align hstorage)
    have hsame : ∀ l : List (Option Nat), List.Forall₂ (Option.Rel (· ≤ ·)) l l := by
      intro l
      refine List.forall₂_same.mpr fun s _ => ?_
      cases s with
      | none => exact .none
      | some n => exact .some (Nat.le_refl n)
    rw [Datum.dataSizes_eq_map, Datum.dataSizes_eq_map]
    exact List.sublistForall₂_iff.mpr ⟨_, hsame _, hsub.map _⟩

/-- Elements that are all well typed. -/
theorem elementsTyped_of_forall {elements : List (Option Datum)}
    (h : ∀ x, some x ∈ elements → WellTyped b x element (-1)) :
    ElementsTyped b elements element := by
  induction elements with
  | nil => exact .nil
  | cons x rest ih =>
    have hrest := ih fun y hy => h y (List.mem_cons_of_mem _ hy)
    cases x with
    | none => exact .null hrest
    | some x => exact .value (h x List.mem_cons_self) hrest

/-- An array with elements goes out as a nest. -/
theorem yields_toScript_array
    (hresolve : Catalog.resolveDomain b.catalog t m = .ok (type, m'))
    (hkind : type.kind = .array element) {own : TypeId} {dims : List ArrayDim}
    {elements : List (Option Datum)} (hsome : elements ≠ []) {values : List (Option ScriptValue)}
    (hvalues : Yields b.catalog (elementsToScript b elements element) (.ok values)) :
    Yields b.catalog (toScript b (.array ⟨own, dims, elements⟩) t)
      (.ok (.table (nest dims values))) := by
  obtain ⟨m'', hresolve⟩ := Catalog.resolveDomain_typeMod hresolve (-1)
  have hempty : elements.isEmpty = false := List.isEmpty_eq_false_iff.mpr hsome
  unfold toScript
  refine (yields_resolved hresolve).bind ?_
  simp only [hkind, hempty, Bool.false_eq_true, if_false]
  exact hvalues.bind (yields_pure _)

/-- In a nest without elements no chain leads to a value. -/
theorem isTable_of_leads_nest {dims : List ArrayDim} {values : List (Option ScriptValue)}
    (hcount : values.length = volume dims) (hnull : ∀ v, some v ∉ values) {chain : List Int}
    {v : ScriptValue} (h : Leads (nest dims values) chain v) : v.isTable = true := by
  induction dims generalizing values chain with
  | nil => exact absurd h not_leads_nil
  | cons d inner ih =>
    rw [volume_cons] at hcount
    cases inner with
    | nil =>
      rw [nest_single (hcount.trans (Nat.mul_one d.len)), present_eq_nil hnull] at h
      exact absurd h not_leads_nil
    | cons e inner =>
      obtain ⟨k, w, hmem, hbegins⟩ := leads_iff.mp h
      rw [nest_cons, List.mem_map] at hmem
      obtain ⟨i, hi, heq⟩ := hmem
      obtain ⟨-, rfl⟩ := Prod.mk.inj heq
      obtain ⟨-, rfl⟩ | ⟨sub, rest, hsub, -, hrest⟩ := hbegins
      · rfl
      · obtain rfl := ScriptValue.table.inj hsub
        refine ih (length_chunk hcount (List.mem_range.mp hi)) (fun w hw => ?_) hrest
        exact hnull w (List.mem_of_mem_drop (List.mem_of_mem_take hw))

/-- A nest without elements is read as the empty array. -/
theorem scan_nest_null {maxDims : Nat} {dims : List ArrayDim} (hne : dims ≠ [])
    (hdims : ∀ d ∈ dims, Extent d) {values : List (Option ScriptValue)}
    (hcount : values.length = volume dims) (hnull : ∀ v, some v ∉ values)
    (hmax : dims.length ≤ maxDims) : scan maxDims false (nest dims values) = .ok [] := by
  have hroom : 0 + dims.length ≤ maxDims := by rwa [Nat.zero_add]
  obtain ⟨depth, keys, hscans, -⟩ := scans_nest hne hdims hcount
    (Or.inr ⟨rfl, fun v hv => absurd hv (hnull v)⟩) hroom
  obtain ⟨bounds, hscan, -⟩ := hscans [] (Nat.zero_le _)
  obtain ⟨found, hfound⟩ : ∃ found, scan maxDims false (nest dims values) = .ok found := by
    have hscan : scanEntries maxDims false 0 none [] (nest dims values) = .ok (depth, bounds) :=
      hscan
    unfold scan
    rw [hscan]
    exact ⟨_, rfl⟩
  have houtline := outline_scan hfound
  by_cases hnil : found = []
  · rw [hfound, hnil]
  · obtain ⟨chain, v, hchain, hv⟩ := houtline.reached hnil
    rw [isTable_of_leads_nest hcount hnull hchain] at hv
    exact nomatch hv

/-- An array whose elements are all NULL comes back empty. -/
theorem yields_convert_null (henum : EnumsApart b)
    (hresolve : Catalog.resolveDomain b.catalog t m = .ok (type, m'))
    (hkind : type.kind = .array element)
    (helement : Catalog.resolveDomain b.catalog element (-1) = .ok (etype, em))
    (hplain : Plain etype) {dims : List ArrayDim} (hne : dims ≠ [])
    (hdims : ∀ d ∈ dims, Extent d) {values : List (Option ScriptValue)}
    (hcount : values.length = volume dims) (hnull : ∀ v, some v ∉ values)
    (hmax : dims.length ≤ b.options.maxArrayDims)
    (ofTuple : RowValue → RowLayout → Resolving RowValue) :
    Yields b.catalog (convert b ofTuple (.table (nest dims values)) t m)
      (.ok (some (.array (ArrayOf.empty element)))) := by
  have hyields :=
    yields_convert_table henum hresolve hkind helement hplain ofTuple (nest dims values)
  unfold tableOutcome at hyields
  rw [scan_nest_null hne hdims hcount hnull hmax] at hyields
  exact hyields

/-- What is present at a place has a counterpart at this place. -/
theorem getElem?_of_forall₂ {α β : Type} {r : α → β → Prop} {l : List (Option α)}
    {l' : List (Option β)} (h : List.Forall₂ (Option.Rel r) l l') {i : Nat} {x : α}
    (hx : l[i]? = some (some x)) : ∃ y, l'[i]? = some (some y) := by
  induction h generalizing i with
  | nil => exact nomatch hx
  | cons hrel _ ih =>
    cases i with
    | succ i => exact ih hx
    | zero =>
      obtain rfl := Option.some.inj hx
      cases hrel with
      | some _ => exact ⟨_, rfl⟩

/-- The nest of an array is the one of the narrowed array. -/
theorem nest_narrow_lastSubscripts {dims : List ArrayDim} {elements : List (Option Datum)}
    {values : List (Option ScriptValue)} {r : ScriptValue → Datum → Prop} (hne : dims ≠ [])
    (hdims : ∀ d ∈ dims, Extent d) (hcount : elements.length = volume dims)
    (hvalues : List.Forall₂ (Option.Rel r) values elements) {first last : Int}
    (hfirst : IsLeast (lastSubscripts ⟨element, dims, elements⟩) first)
    (hlast : IsGreatest (lastSubscripts ⟨element, dims, elements⟩) last)
    (hinner : Inner first last dims) :
    nest (narrowDims first last dims) (narrow first last dims values) = nest dims values := by
  have hlength : values.length = volume dims := hvalues.length_eq.trans hcount
  refine nest_narrow hne hdims hinner hlength fun ks v hks hv => ?_
  obtain ⟨y, hy⟩ := getElem?_of_forall₂ hvalues hv
  have hk : ks.getLast? ≠ none := by
    intro hnone
    rw [List.getLast?_eq_none_iff.mp hnone] at hks
    cases hks
    exact hne rfl
  obtain ⟨k, hk⟩ := Option.ne_none_iff_exists'.mp hk
  have hmem : k ∈ lastSubscripts ⟨element, dims, elements⟩ :=
    (mem_lastSubscripts hne hdims hcount).mpr ⟨ks, y, hks, hy, hk⟩
  exact ⟨k, hk, hfirst.2 hmem, hlast.2 hmem⟩

/-- An array of scalars goes out, and its image comes back. -/
theorem image_roundTrips (hmax : b.options.maxAllocSize < 2 ^ 64) (henum : EnumsApart b)
    (hresolve : Catalog.resolveDomain b.catalog t m = .ok (type, m'))
    (hkind : type.kind = .array element)
    (helement : Catalog.resolveDomain b.catalog element (-1) = .ok (etype, em))
    (hbase : etype.kind = .base) {s : Scalar} (hscalar : Scalar.ofId? etype.id = some s)
    (hjson : s ≠ .json) {a : ArrayValue} (ha : Regular a) (hown : a.elementType = element)
    (hafford : Affordable b a) (hkept : ∀ x, some x ∈ a.elements → Kept em s x) :
    ∃ v r, Yields b.catalog (toScript b (.array a) t) (.ok v) ∧ Image a r ∧
      ∀ ofTuple, Yields b.catalog (convert b ofTuple v t m) (.ok (some (.array r))) := by
  have hplain : Plain etype := Or.inl ⟨hbase, s, hscalar, hjson⟩
  cases ha with
  | empty own =>
    obtain rfl : own = element := hown
    obtain ⟨v, hout, hback⟩ := roundTrips_empty hresolve hkind helement
    exact ⟨v, _, hout, ⟨fun _ => rfl, fun x hx => absurd hx List.not_mem_nil⟩, hback.back⟩
  | @filled own dims elements hne hdims hcount =>
    obtain rfl : own = element := hown
    have htyped : ElementsTyped b elements own := elementsTyped_of_forall fun x hx =>
      .scalar helement hbase hscalar (hkept x hx)
    obtain ⟨values, hvalues, hreturns⟩ := htyped.roundTrip hmax henum
    have hlength : values.length = volume dims := hreturns.length_eq.trans hcount
    have hsome : elements ≠ [] := by
      have hpos := volume_pos_of_extents hdims
      rintro rfl
      rw [List.length_nil] at hcount
      omega
    have hout : Yields b.catalog (toScript b (.array ⟨own, dims, elements⟩) t)
        (.ok (.table (nest dims values))) := yields_toScript_array hresolve hkind hsome hvalues
    -- the table shows the same for the array and for its image, and the image is the one that is
    -- found
    by_cases hpresent : ∃ x, some x ∈ elements
    · obtain ⟨x, hx⟩ := hpresent
      obtain ⟨first, last, hfirst, hlast, hinner⟩ := exists_lastSubscripts hne hdims hcount hx
      have hnest := nest_narrow_lastSubscripts hne hdims hcount hreturns hfirst hlast hinner
      have hfits := hafford.narrow hne hdims hcount hfirst.1 hlast.1 hinner
      have hleaf := leafTables_base hbase hscalar (hkept x hx)
      rw [← hnest] at hout
      refine ⟨_, _, hout, ⟨fun hnull => absurd hx (hnull x), fun _ _ =>
        narrowed_narrow hne hdims hcount hfirst hlast hinner⟩, fun ofTuple => ?_⟩
      exact yields_array hmax hresolve hkind helement (Or.inl ⟨hleaf, Or.inl hbase⟩) hfits
        (forall₂_narrow first last dims hreturns) ofTuple
    · have hnull : ∀ v, some v ∉ values := by
        intro v hv
        obtain ⟨x, hx, -⟩ := exists_rel_of_mem hreturns hv
        exact hpresent ⟨x, hx⟩
      exact ⟨_, ArrayOf.empty own, hout, ⟨fun _ => rfl, fun x hx => absurd ⟨x, hx⟩ hpresent⟩,
        yields_convert_null henum hresolve hkind helement hplain hne hdims hlength hnull
          hafford.maxDims⟩

/-- In the catalog of a host, every array of scalars within the limits has a script form, and this
converts back. The array that comes back is the image of the array: empty if there are only NULLs,
and otherwise what lies between the least and the greatest last subscript of an element. It is the
array itself if and only if the array is empty or has elements at both ends of its last dimension.
For truth values, integers, texts and bytes, any value of the type is `Kept`. -/
theorem toRelational_toScript_array {h : Host} (hdefined : h.Defined) (b : Border)
    (hcatalog : b.catalog = h.catalog) (hmax : b.options.maxAllocSize < 2 ^ 64)
    {element t : TypeId} {m m' em : Int32} {type etype : TypeDescriptor}
    (hresolve : Catalog.resolveDomain b.catalog t m = .ok (type, m'))
    (hkind : type.kind = .array element)
    (helement : Catalog.resolveDomain b.catalog element (-1) = .ok (etype, em))
    (hbase : etype.kind = .base) {s : Scalar} (hscalar : Scalar.ofId? etype.id = some s)
    (hjson : s ≠ .json) {a : ArrayValue} (ha : Regular a) (hown : a.elementType = element)
    (hafford : Affordable b a) (hkept : ∀ x, some x ∈ a.elements → Kept em s x)
    (c : TypeCache) (hc : c.Coherent b.catalog) :
    ∃ v c' r c'', toScript b (.array a) t c = (.ok v, c') ∧
      toRelational b v t m c' = (.ok (some (.array r)), c'') ∧ Image a r ∧
      (r = a ↔ a.elements = [] ∨ ∃ d, a.dims.getLast? = some d ∧
        d.lower.toInt ∈ lastSubscripts a ∧ d.upper.toInt ∈ lastSubscripts a) := by
  have henum := enumsApart_of_defined hdefined hcatalog
  obtain ⟨v, r, hout, himage, hback⟩ := image_roundTrips hmax henum hresolve hkind helement hbase
    hscalar hjson ha hown hafford hkept
  obtain ⟨c', hscript, hc'⟩ := hout c hc
  obtain ⟨c'', hrelational, -⟩ := hback (retype b) c' hc'
  exact ⟨v, c', r, c'', hscript, hrelational, himage, himage.eq_iff ha⟩

/-- A matrix without elements in its first column. -/
def marginMatrix : ArrayValue :=
  ⟨Scalar.int4.id, [⟨2, 0⟩, ⟨3, -1⟩], [none, some (.int4 1), none, none, none, some (.int4 2)]⟩

/-- The matrix without this column. -/
def innerMatrix : ArrayValue :=
  ⟨Scalar.int4.id, [⟨2, 0⟩, ⟨2, 0⟩], [some (.int4 1), none, none, some (.int4 2)]⟩

/-- The column is lost on the way. -/
theorem toRelational_toScript_matrix :
    ∃ v c' c'', toScript builtinBorder (.array marginMatrix) 1007 {} = (.ok v, c') ∧
      toRelational builtinBorder v 1007 (-1) c' = (.ok (some (.array innerMatrix)), c'') ∧
      Image marginMatrix innerMatrix := by
  have hregular : Regular marginMatrix := by
    refine .filled (by simp) (fun d hd => ?_) rfl
    simp only [List.mem_cons, List.not_mem_nil, or_false] at hd
    rcases hd with rfl | rfl <;> exact ⟨by decide, by decide⟩
  have hafford : Affordable builtinBorder marginMatrix := by
    refine ⟨by decide, by decide, fun len align hstorage => ?_⟩
    have hint4 : storage builtinBorder.catalog Scalar.int4.id = .ok (4, .int) := rfl
    obtain ⟨rfl, rfl⟩ := Prod.mk.inj (Except.ok.inj (hint4.symm.trans hstorage))
    decide
  have hkept : ∀ x, some x ∈ marginMatrix.elements → Kept (-1) .int4 x := by
    intro x hx
    simp only [marginMatrix, List.mem_cons, reduceCtorEq, Option.some.injEq, List.not_mem_nil,
      or_false, false_or] at hx
    rcases hx with rfl | rfl <;> trivial
  obtain ⟨v, c', r, c'', hscript, hback, himage, -⟩ := toRelational_toScript_array .new
    builtinBorder rfl (by decide) (t := 1007) (m := -1) rfl rfl rfl rfl rfl (by decide) hregular
    rfl hafford hkept {} (TypeCache.coherent_empty _)
  have hinner : ((toScript builtinBorder (.array marginMatrix) 1007 {}).1.map fun v =>
      (toRelational builtinBorder v 1007 (-1)
        (toScript builtinBorder (.array marginMatrix) 1007 {}).2).1) =
      .ok (.ok (some (.array innerMatrix))) := by cbv
  rw [hscript] at hinner
  have hsame : (toRelational builtinBorder v 1007 (-1) c').1 = .ok (some (.array innerMatrix)) :=
    Except.ok.inj hinner
  rw [hback] at hsame
  obtain rfl := Datum.array.inj (Option.some.inj (Except.ok.inj hsame))
  exact ⟨v, c', c'', hscript, hback, himage⟩

end StoredRoutine.Marshal
