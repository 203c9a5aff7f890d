import StoredRoutine.Proofs.Marshal.Image

/-!
# `StoredRoutine.Proofs.Marshal.RowArrays`: what an array of rows comes back as

A row goes out as a table, and an array of rows of several dimensions as a nest whose innermost
values are tables again. Coming back, every table counts as a row as soon as the elements are rows,
so only the first dimension is found, and what stood below it is read as one row. The keys there are
integers and no column has such a name: the row is NULL in every column.

`toRelational_toScript_rows` says what comes back of an array of rows without NULL elements: the
array itself if it has one dimension, and otherwise `collapsed`, never a failure.
-/

set_option autoImplicit false

namespace StoredRoutine.Marshal

open ArrayOf (Regular storedSize_le)
open Resolving

/-- The row of a layout that is NULL in every column. -/
def nullRow (layout : RowLayout) : Datum :=
  .row ⟨layout, List.replicate layout.attributes.length none⟩

/-- The array of rows that is left of the first dimension of an array. -/
def collapsed (layout : RowLayout) (a : ArrayValue) : ArrayValue :=
  match a.dims with
  | [] => a
  | d :: _ => ⟨a.elementType, [d], List.replicate d.len (some (nullRow layout))⟩

variable {b : Border} {element t : TypeId} {type etype : TypeDescriptor} {m m' em : Int32}
  {layout : RowLayout}

/-! ### The rows of an array -/

theorem ColumnsTyped.length_eq {attributes : List Attribute} {values : List (Option Datum)}
    (h : ColumnsTyped b attributes values) : values.length = attributes.length := by
  induction attributes generalizing values with
  | nil => cases h with
    | nil => rfl
  | cons a rest ih => cases h with
    | null hrest => rw [List.length_cons, List.length_cons, ih hrest]
    | value _ hrest => rw [List.length_cons, List.length_cons, ih hrest]

/-- A value of a composite type is a row of its layout. -/
theorem WellTyped.row_of_composite {d : Datum} (h : WellTyped b d t m)
    (hresolve : Catalog.resolveDomain b.catalog t m = .ok (type, m'))
    (hkind : type.kind = .composite layout) :
    ∃ values, d = .row ⟨layout, values⟩ ∧ values.length = layout.attributes.length := by
  cases h with
  | row hresolve' hkind' _ hcolumns =>
    obtain ⟨rfl, -⟩ := resolved_unique hresolve hresolve'
    obtain rfl := TypeKind.composite.inj (hkind.symm.trans hkind')
    exact ⟨_, rfl, hcolumns.length_eq⟩
  | scalar hresolve' hkind' _ _ | enum hresolve' hkind' _ | empty hresolve' hkind' _
  | array hresolve' hkind' _ _ _ _ =>
    obtain ⟨rfl, -⟩ := resolved_unique hresolve hresolve'
    exact nomatch hkind.symm.trans hkind'

/-! ### Nests as rows -/

/-- No entry of a nest stands under a text. -/
theorem find?_nest (name : String) {dims : List ArrayDim} (hne : dims ≠ [])
    {values : List (Option ScriptValue)} (hcount : values.length = volume dims) :
    ScriptTable.find? (.text name) (nest dims values) = none := by
  have hkeys : ∀ e ∈ nest dims values, ∃ k, e.1 = .int k := by
    intro e he
    cases dims with
    | nil => exact absurd rfl hne
    | cons d inner =>
      cases inner with
      | nil =>
        rw [nest_single (hcount.trans (Nat.one_mul d.len))] at he
        obtain ⟨p, -, rfl⟩ := List.mem_map.mp he
        exact ⟨subscriptKey d p.1, rfl⟩
      | cons d' inner =>
        rw [nest_cons] at he
        obtain ⟨i, -, rfl⟩ := List.mem_map.mp he
        exact ⟨subscriptKey d i, rfl⟩
  unfold ScriptTable.find?
  rw [List.lookup_eq_none_iff]
  intro e he
  obtain ⟨k, hk⟩ := hkeys e he
  rw [hk]
  rfl

/-- Read as a row, a nest gives NULL for every column. -/
theorem returns_nullRow (helement : Catalog.resolveDomain b.catalog element m = .ok (etype, em))
    (hkind : etype.kind = .composite layout) {dims : List ArrayDim} (hne : dims ≠ [])
    {values : List (Option ScriptValue)} (hcount : values.length = volume dims) :
    Returns b element m (.table (nest dims values)) (nullRow layout) := by
  have hentered : List.Forall₂ (Entered b (nest dims values)) layout.attributes
      (List.replicate layout.attributes.length none) := by
    generalize layout.attributes = attributes
    induction attributes with
    | nil => exact .nil
    | cons a rest ih => exact .cons (find?_nest a.name hne hcount) ih
  exact returns_of_kind helement (by simp [hkind]) (by simp [hkind]) fun ofTuple =>
    yields_row helement hkind hentered ofTuple

/-- A nest of several dimensions is a list of nests. -/
theorem nest_eq_nest_single (d : ArrayDim) {inner : List ArrayDim} (hne : inner ≠ [])
    (values : List (Option ScriptValue)) :
    nest (d :: inner) values =
      nest [d] ((List.range d.len).map fun i =>
        some (.table (nest inner (chunk (volume inner) i values)))) := by
  have hpresent : ∀ (f : Nat → ScriptValue) (n : Nat),
      present 0 ((List.range n).map fun i => some (f i)) =
        (List.range n).map fun i => (i, f i) := by
    intro f n
    induction n with
    | zero => rfl
    | succ n ih =>
      rw [List.range_succ, List.map_append, present_append, ih, List.map_append, List.length_map,
        List.length_range, Nat.zero_add]
      rfl
  rw [nest_outer d hne, nest_single (by rw [List.length_map, List.length_range]), hpresent,
    List.map_map]
  rfl

/-! ### There and back -/

/-- Without NULL elements, a single dimension can be seen from outside. -/
theorem edgesPresent_single {d : ArrayDim} (hpos : 0 < d.len) {elements : List (Option Datum)}
    (hcount : elements.length = d.len) (hnull : none ∉ elements) : EdgesPresent [d] elements := by
  have hat : ∀ i < d.len, ∃ x, elements[i]? = some (some x) := by
    intro i hi
    have hlt : i < elements.length := by omega
    obtain ⟨x, hx⟩ := Option.ne_none_iff_exists'.mp
      fun hnone : elements[i] = none => hnull (hnone ▸ List.getElem_mem hlt)
    exact ⟨x, by rw [List.getElem?_eq_getElem hlt, hx]⟩
  obtain ⟨x, hx⟩ := hat 0 hpos
  obtain ⟨y, hy⟩ := hat (d.len - 1) (by omega)
  exact ⟨⟨d, 0, x, rfl, hx, Nat.zero_mod _⟩, ⟨d, _, y, rfl, hy, Nat.mod_eq_of_lt (by omega)⟩⟩

/-- No row of a layout takes less space than the one that is NULL in every column. -/
theorem dataSize_nullRow_le {values : List (Option Datum)}
    (hlength : values.length = layout.attributes.length) :
    (nullRow layout).dataSize ≤ (Datum.row ⟨layout, values⟩).dataSize := by
  show Datum.rowSize _ ≤ Datum.rowSize _
  rw [Datum.dataSizes_eq_map, Datum.dataSizes_eq_map]
  refine Datum.rowSize_le ?_ fun s hs => ?_
  · rw [List.length_map, List.length_map, List.length_replicate, hlength]
  · rw [List.map_replicate] at hs
    exact List.eq_of_mem_replicate hs

/-- As many rows as there are in front take no more space when they are NULL in every column. -/
theorem dataSizes_nullRows {n : Nat} {elements : List (Option Datum)} (hn : n ≤ elements.length)
    (hrows : ∀ e ∈ elements, ∃ values, e = some (.row ⟨layout, values⟩) ∧
      values.length = layout.attributes.length) :
    List.SublistForall₂ (Option.Rel (· ≤ ·))
      (Datum.dataSizes (List.replicate n (some (nullRow layout)))) (Datum.dataSizes elements) := by
  rw [Datum.dataSizes_eq_map, Datum.dataSizes_eq_map, List.map_replicate]
  refine List.sublistForall₂_iff.mpr
    ⟨(elements.map (·.map Datum.dataSize)).take n, ?_, List.take_sublist _ _⟩
  refine List.forall₂_iff_get.mpr ⟨?_, fun i hi hi' => ?_⟩
  · rw [List.length_replicate, List.length_take, List.length_map]
    omega
  · rw [List.length_replicate] at hi
    have hlt : i < elements.length := by omega
    obtain ⟨values, hvalues, hlength⟩ := hrows _ (List.getElem_mem hlt)
    simp only [List.get_eq_getElem, List.getElem_replicate, List.getElem_take, List.getElem_map,
      hvalues, Option.map_some]
    exact .some (dataSize_nullRow_le hlength)

/-- The array that is left fits if the array is affordable. -/
theorem Affordable.collapsed {d : ArrayDim} {inner : List ArrayDim}
    {elements : List (Option Datum)} (h : Affordable b ⟨element, d :: inner, elements⟩)
    (hdims : ∀ x ∈ d :: inner, Extent x) (hcount : elements.length = volume (d :: inner))
    (hrows : ∀ e ∈ elements, ∃ values, e = some (.row ⟨layout, values⟩) ∧
      values.length = layout.attributes.length) :
    ArrayFits b element [d] (List.replicate d.len (some (nullRow layout))) := by
  have hpos := (hdims d List.mem_cons_self).pos
  -- there are no more rows than there were elements
  have hle : d.len ≤ elements.length := by
    rw [hcount, volume_cons]
    exact Nat.le_mul_of_pos_right _
      (volume_pos_of_extents fun x hx => hdims x (List.mem_cons_of_mem d hx))
  constructor
  case nonempty => exact List.cons_ne_nil d []
  case maxDims => exact Nat.le_trans (Nat.succ_le_succ (Nat.zero_le _)) h.maxDims
  case extents =>
    intro x hx
    rw [List.mem_singleton.mp hx]
    exact hdims d List.mem_cons_self
  case count =>
    rw [List.length_replicate]
    exact (Nat.one_mul d.len).symm
  case edges =>
    refine edgesPresent_single hpos List.length_replicate fun hnone => ?_
    exact nomatch List.eq_of_mem_replicate hnone
  case slots =>
    rw [List.length_replicate]
    exact Nat.le_trans (Nat.mul_le_mul_right _ hle) h.slots
  case size =>
    intro len align hstorage
    exact Nat.le_trans (storedSize_le (Nat.succ_le_succ (Nat.zero_le _))
      (dataSizes_nullRows hle hrows) len align) (h.size len align hstorage)

/-- An array of rows goes out as a nest. It comes back itself if it has one dimension, and as the
array that is left of the first dimension otherwise. -/
theorem rows_roundTrip (hmax : b.options.maxAllocSize < 2 ^ 64) (henum : EnumsApart b)
    (hresolve : Catalog.resolveDomain b.catalog t m = .ok (type, m'))
    (hkind : type.kind = .array element)
    (helement : Catalog.resolveDomain b.catalog element (-1) = .ok (etype, em))
    (hrow : etype.kind = .composite layout) {d : ArrayDim} {inner : List ArrayDim}
    {elements : List (Option Datum)} (hdims : ∀ x ∈ d :: inner, Extent x)
    (hcount : elements.length = volume (d :: inner))
    (hafford : Affordable b ⟨element, d :: inner, elements⟩)
    (htyped : ElementsTyped b elements element) (hnull : none ∉ elements) :
    ∃ v, Yields b.catalog (toScript b (.array ⟨element, d :: inner, elements⟩) t) (.ok v) ∧
      ∀ ofTuple, Yields b.catalog (convert b ofTuple v t m) (.ok (some (.array
        (if inner = [] then ⟨element, [d], elements⟩
          else collapsed layout ⟨element, d :: inner, elements⟩)))) := by
  have hisRow : etype.isRow = true := by
    unfold TypeDescriptor.isRow
    rw [hrow]
  obtain ⟨values, hvalues, hreturns⟩ := htyped.roundTrip hmax henum
  have hlength : values.length = volume (d :: inner) := hreturns.length_eq.trans hcount
  have hpos := volume_pos_of_extents hdims
  have hsome : elements ≠ [] := by
    rintro rfl
    rw [List.length_nil] at hcount
    omega
  refine ⟨_, yields_toScript_array hresolve hkind hsome hvalues, fun ofTuple => ?_⟩
  have hrows : ∀ e ∈ elements, ∃ values, e = some (.row ⟨layout, values⟩) ∧
      values.length = layout.attributes.length := by
    intro e he
    cases e with
    | none => exact absurd he hnull
    | some x =>
      obtain ⟨own, rfl, hown⟩ := (htyped.mem he).row_of_composite helement hrow
      exact ⟨own, rfl, hown⟩
  by_cases hinner : inner = []
  · subst hinner
    have hcount' : elements.length = d.len := hcount.trans (Nat.one_mul d.len)
    have hedges := edgesPresent_single (hdims d List.mem_cons_self).pos hcount' hnull
    have hfits : ArrayFits b element [d] elements :=
      ⟨List.cons_ne_nil d [], hafford.maxDims, hdims, hcount, hedges, hafford.slots, hafford.size⟩
    rw [if_pos rfl]
    exact yields_array hmax hresolve hkind helement (Or.inr ⟨hisRow, rfl⟩) hfits hreturns ofTuple
  · rw [if_neg hinner, nest_eq_nest_single d hinner]
    -- each table below the first dimension is read as one row
    rw [volume_cons] at hlength
    have hread : List.Forall₂ (Option.Rel (Returns b element (-1)))
        ((List.range d.len).map fun i =>
          some (.table (nest inner (chunk (volume inner) i values))))
        (List.replicate d.len (some (nullRow layout))) := by
      refine List.forall₂_iff_get.mpr ⟨by simp, fun i hi hi' => ?_⟩
      simp only [List.get_eq_getElem, List.getElem_map, List.getElem_range, List.getElem_replicate]
      exact .some (returns_nullRow helement hrow hinner (length_chunk hlength (by simpa using hi)))
    exact yields_array hmax hresolve hkind helement (Or.inr ⟨hisRow, rfl⟩)
      (hafford.collapsed hdims hcount hrows) hread ofTuple

/-- In the catalog of a host, take an array of rows within the limits, without NULL elements. It has
a script form, and this converts back. What comes back is the array itself if it has one dimension,
and otherwise as many rows as the first dimension has subscripts, NULL in every column. So the array
is kept if and only if it has one dimension. -/
theorem toRelational_toScript_rows {h : Host} (hdefined : h.Defined) (b : Border)
    (hcatalog : b.catalog = h.catalog) (hmax : b.options.maxAllocSize < 2 ^ 64)
    {element t : TypeId} {m m' em : Int32} {type etype : TypeDescriptor} {layout : RowLayout}
    (hresolve : Catalog.resolveDomain b.catalog t m = .ok (type, m'))
    (hkind : type.kind = .array element)
    (helement : Catalog.resolveDomain b.catalog element (-1) = .ok (etype, em))
    (hrow : etype.kind = .composite layout) {a : ArrayValue} (ha : Regular a) (hne : a.dims ≠ [])
    (hown : a.elementType = element) (hafford : Affordable b a)
    (htyped : ElementsTyped b a.elements element) (hnull : none ∉ a.elements)
    (c : TypeCache) (hc : c.Coherent b.catalog) :
    ∃ v c' r c'', toScript b (.array a) t c = (.ok v, c') ∧
      toRelational b v t m c' = (.ok (some (.array r)), c'') ∧
      r = (if a.dims.length = 1 then a else collapsed layout a) ∧ (r = a ↔ a.dims.length = 1) := by
  have henum := enumsApart_of_defined hdefined hcatalog
  cases ha with
  | empty own => exact absurd rfl hne
  | @filled own dims elements hne hdims hcount =>
    obtain rfl : own = element := hown
    cases dims with
    | nil => exact absurd rfl hne
    | cons d inner =>
      obtain ⟨v, hout, hback⟩ := rows_roundTrip hmax henum hresolve hkind helement hrow hdims hcount
        hafford htyped hnull
      obtain ⟨c', hscript, hc'⟩ := hout c hc
      obtain ⟨c'', hrelational, -⟩ := hback (retype b) c' hc'
      refine ⟨v, c', _, c'', hscript, hrelational, ?_⟩
      by_cases hinner : inner = []
      · subst hinner
        exact ⟨rfl, fun _ => rfl, fun _ => rfl⟩
      · have hlong : (d :: inner).length ≠ 1 := by
          rw [List.length_cons]
          have hpos := List.length_pos_iff.mpr hinner
          omega
        rw [if_neg hinner, if_neg hlong]
        refine ⟨rfl, fun heq => ?_, fun hone => absurd hone hlong⟩
        -- the two arrays differ in the number of dimensions at least
        have hdim : [d] = d :: inner := congrArg ArrayOf.dims heq
        exact absurd (List.cons.inj hdim).2.symm hinner

/-- A catalog with points, and arrays of them. -/
def pointHost : Host :=
  ((Host.new.defineComposite "point"
    [⟨"x", Scalar.int4.id, -1⟩, ⟨"y", Scalar.text.id, -1⟩]).2.defineArray 16384).2

/-- The conversions over this catalog, with the default options. -/
def pointBorder : Border :=
  { catalog := pointHost.catalog, hasPortal := fun _ => false, options := {} }

/-- The columns of a point. -/
def pointLayout : RowLayout := ⟨16384, [⟨"x", Scalar.int4.id, -1⟩, ⟨"y", Scalar.text.id, -1⟩]⟩

/-- A matrix of one row with two points. -/
def points : ArrayValue :=
  ⟨16384, [⟨1, 1⟩, ⟨2, 1⟩],
    [some (.row ⟨pointLayout, [some (.int4 1), some (.text "a")]⟩),
      some (.row ⟨pointLayout, [some (.int4 2), some (.text "b")]⟩)]⟩

/-- One point is left of the two, without coordinates. -/
theorem toRelational_toScript_points :
    ∃ v c' c'', toScript pointBorder (.array points) 16385 {} = (.ok v, c') ∧
      toRelational pointBorder v 16385 (-1) c' =
        (.ok (some (.array
          ⟨16384, [⟨1, 1⟩], [some (.row ⟨pointLayout, [none, none]⟩)]⟩)), c'') := by
  have hdefined : pointHost.Defined := .array (.composite .new (by decide) _ _) (by decide) _
  have hregular : Regular points := by
    refine .filled (by simp) (fun d hd => ?_) rfl
    simp only [List.mem_cons, List.not_mem_nil, or_false] at hd
    rcases hd with rfl | rfl <;> exact ⟨by decide, by decide⟩
  have hafford : Affordable pointBorder points := by
    refine ⟨by decide, by decide, fun len align hstorage => ?_⟩
    have hpoint : storage pointBorder.catalog 16384 = .ok (-1, .double) := rfl
    obtain ⟨rfl, rfl⟩ := Prod.mk.inj (Except.ok.inj (hpoint.symm.trans hstorage))
    decide
  have hpoint : ∀ (n : Int32) (s : String),
      WellTyped pointBorder (.row ⟨pointLayout, [some (.int4 n), some (.text s)]⟩) 16384 (-1) := by
    intro n s
    have hx : WellTyped pointBorder (.int4 n) Scalar.int4.id (-1) :=
      .scalar (s := .int4) rfl rfl rfl trivial
    have hy : WellTyped pointBorder (.text s) Scalar.text.id (-1) :=
      .scalar (s := .text) rfl rfl rfl trivial
    exact .row rfl rfl (by decide) (.value hx (.value hy .nil))
  obtain ⟨v, c', r, c'', hscript, hback, hr, -⟩ := toRelational_toScript_rows hdefined pointBorder
    rfl (by decide) (t := 16385) (m := -1) rfl rfl rfl rfl hregular (by simp [points]) rfl hafford
    (.value (hpoint 1 "a") (.value (hpoint 2 "b") .nil)) (by simp [points]) {}
    (TypeCache.coherent_empty _)
  obtain rfl := hr
  exact ⟨v, c', c'', hscript, hback⟩

/-- An array of rows does not always come back itself. -/
theorem points_not_kept :
    ∃ r, ((toScript pointBorder (.array points) 16385 {}).1.map fun v =>
        (toRelational pointBorder v 16385 (-1) {}).1) = .ok (.ok (some (.array r))) ∧
      r ≠ points := by
  refine ⟨⟨16384, [⟨1, 1⟩], [some (.row ⟨pointLayout, [none, none]⟩)]⟩, by cbv, fun heq => ?_⟩
  exact absurd (congrArg (fun a => a.dims.length) heq) (by decide)

end StoredRoutine.Marshal
