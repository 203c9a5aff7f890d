import StoredRoutine.Proofs.Marshal.Chains
import StoredRoutine.Proofs.Marshal.RoundTrip
import StoredRoutine.Proofs.Marshal.Typed

/-!
# `StoredRoutine.Proofs.Marshal.Tables`: the array that a table becomes

Any table can be handed over where an array is asked for. For elements that are no tables themselves
(`Plain`) the outcome is a function of the table and the catalog alone, `tableOutcome`, and
`toRelational_table` says of it:

* an array that comes out is described by the chains of integer keys (`Describes`): they are as long
  as there are dimensions, the bounds are the least and the greatest key of each level, and at each
  subscript stands what the value at the end of the chain is converted to, or NULL;
* the entries under texts have no influence;
* a table whose chains do not fit together is refused as a whole (`Irregular`).

The shape is found by one recursion over the table and the elements are placed by another one. That
they agree is `Outline.within`: every chain of full length lies within the dimensions.
-/

set_option autoImplicit false

namespace StoredRoutine

mutual

/-- The value without the entries under texts, at any depth. -/
def ScriptValue.indexed : ScriptValue → ScriptValue
  | .table entries => .table (ScriptTable.indexed entries)
  | v => v

/-- The entries under integers, and in their tables the same. -/
def ScriptTable.indexed : List (ScriptKey × ScriptValue) → List (ScriptKey × ScriptValue)
  | [] => []
  | (.text _, _) :: rest => ScriptTable.indexed rest
  | (.int k, v) :: rest => (.int k, ScriptValue.indexed v) :: ScriptTable.indexed rest

end

namespace Marshal

open ArrayOf (Regular Within place place_lt subscriptsAt_place offset?_eq_some_iff)
open Datum (ok_of_bind_eq_ok)
open Resolving

/-! ### Without the entries under texts -/

mutual

theorem scanValue_indexed (maxDims level : Nat) (bounds : Bounds) (w : ScriptValue) :
    scanValue maxDims false level bounds w.indexed = scanValue maxDims false level bounds w := by
  match w with
  | .table sub =>
    unfold ScriptValue.indexed
    simp only [scanValue, Bool.false_eq_true, if_false]
    rw [scanEntries_indexed]
  | .nil | .bool _ | .int _ | .number _ | .string _ | .tuple _ | .cursor _ => rfl

/-- The scan does not look at entries under texts. -/
theorem scanEntries_indexed (maxDims level : Nat) (depth : Option Nat) (bounds : Bounds)
    (entries : List (ScriptKey × ScriptValue)) :
    scanEntries maxDims false level depth bounds (ScriptTable.indexed entries) =
      scanEntries maxDims false level depth bounds entries := by
  match entries with
  | [] => rfl
  | (.text s, w) :: rest =>
    unfold ScriptTable.indexed
    rw [scanEntries_indexed]
    simp only [scanEntries]
  | (.int k, w) :: rest =>
    unfold ScriptTable.indexed
    simp only [scanEntries, scanValue_indexed]
    simp only [scanEntries_indexed maxDims level _ _ rest]

end

/-- The values are placed as they are without the entries under texts. -/
theorem placementsFrom_indexed (dims : List ArrayDim) (base : Nat) (entries : ScriptTable) :
    placementsFrom dims base (ScriptTable.indexed entries) =
      (placementsFrom dims base entries).map fun p => (p.1, p.2.indexed) := by
  induction dims generalizing base entries with
  | nil => rfl
  | cons d inner ih =>
    induction entries with
    | nil => rfl
    | cons e rest ihrest =>
      obtain ⟨key, w⟩ := e
      simp only [placementsFrom, List.map_flatMap] at ihrest
      cases key with
      | text s =>
        unfold ScriptTable.indexed
        simp only [placementsFrom, List.flatMap_cons, List.nil_append, List.map_flatMap]
        exact ihrest
      | int k =>
        unfold ScriptTable.indexed
        simp only [placementsFrom, List.flatMap_cons, List.map_append, List.map_flatMap, ihrest]
        congr 1
        split
        · rfl
        · cases w with
          | table sub => exact ih _ sub
          | _ => rfl

/-! ### Putting values into their slots -/

theorem length_scatter {α : Type} (count : Nat) (placed : List (Nat × Option α)) :
    (scatter count placed).length = count := by
  have hsize : ∀ slots : Array (Option α),
      (placed.foldl (fun slots p => slots.setIfInBounds p.1 p.2) slots).size = slots.size := by
    induction placed with
    | nil => exact fun _ => rfl
    | cons p rest ih =>
      intro slots
      rw [List.foldl_cons, ih, Array.size_setIfInBounds]
  unfold scatter
  rw [Array.length_toList, hsize, Array.size_replicate]

/-- A slot holds the one value that was put there, or NULL if there is none. -/
theorem getElem?_scatter {α : Type} {count i : Nat} {placed : List (Nat × Option α)} {x : Option α}
    (hi : i < count) (hsame : ∀ y, (i, y) ∈ placed → y = x)
    (hsome : (∃ y, (i, y) ∈ placed) ∨ x = none) : (scatter count placed)[i]? = some x := by
  -- the induction allows for slots that hold the value already
  have hfold : ∀ slots : Array (Option α), i < slots.size →
      ((∃ y, (i, y) ∈ placed) ∨ slots[i]? = some x) →
        (placed.foldl (fun slots p => slots.setIfInBounds p.1 p.2) slots)[i]? = some x := by
    clear hsome
    induction placed with
    | nil =>
      rintro slots - (⟨y, hy⟩ | hslot)
      · exact absurd hy List.not_mem_nil
      · exact hslot
    | cons p rest ih =>
      intro slots hlt hor
      obtain ⟨j, y⟩ := p
      have hrest := ih (fun z hz => hsame z (List.mem_cons_of_mem _ hz))
        (slots.setIfInBounds j y) (by rwa [Array.size_setIfInBounds])
      refine hrest ?_
      by_cases hj : j = i
      · subst hj
        right
        rw [Array.getElem?_setIfInBounds_self_of_lt hlt, hsame y List.mem_cons_self]
      · rw [Array.getElem?_setIfInBounds_ne hj]
        rcases hor with ⟨z, hz⟩ | hslot
        · rcases List.mem_cons.mp hz with heq | hz
          · exact absurd (Prod.mk.inj heq).1.symm hj
          · exact Or.inl ⟨z, hz⟩
        · exact Or.inr hslot
  unfold scatter
  rw [Array.getElem?_toList]
  refine hfold _ (by rwa [Array.size_replicate]) ?_
  rcases hsome with h | rfl
  · exact Or.inl h
  · right
    simp [hi]

/-- Where a function has a value for all members of a list, these are the values. -/
theorem ok_of_mapM_eq_ok {α β : Type} {f : α → Outcome β} {l : List α} {values : List β}
    (h : l.mapM f = .ok values) : List.Forall₂ (fun a b => f a = .ok b) l values := by
  induction l generalizing values with
  | nil =>
    rw [List.mapM_nil] at h
    obtain rfl := Except.ok.inj h
    exact .nil
  | cons a rest ih =>
    rw [List.mapM_cons] at h
    obtain ⟨b, hb, h⟩ := ok_of_bind_eq_ok h
    obtain ⟨bs, hbs, h⟩ := ok_of_bind_eq_ok h
    obtain rfl := Except.ok.inj h
    exact .cons hb (ih hbs)

/-- A member of a list has a counterpart in a list that agrees with it place by place. -/
theorem exists_of_forall₂ {α β : Type} {r : α → β → Prop} {l : List α} {m : List β}
    (h : List.Forall₂ r l m) {a : α} (ha : a ∈ l) : ∃ b, b ∈ m ∧ r a b := by
  induction h with
  | nil => exact absurd ha List.not_mem_nil
  | cons hab _ ih =>
    rcases List.mem_cons.mp ha with rfl | ha
    · exact ⟨_, List.mem_cons_self, hab⟩
    · obtain ⟨b, hb, hrel⟩ := ih ha
      exact ⟨b, List.mem_cons_of_mem _ hb, hrel⟩

/-- An array that is built from slots has them as elements, in the dimensions that were asked
for. -/
theorem ofDims_extents {element : TypeId} {dims : List ArrayDim} {slots : List (Option Datum)}
    {a : ArrayValue} (hne : dims ≠ []) (hdims : ∀ d ∈ dims, Extent d)
    (h : ArrayOf.ofDims element dims slots = .ok a) :
    a = ⟨element, dims, slots⟩ ∧ slots.length = volume dims := by
  have hpos := volume_pos_of_extents hdims
  unfold ArrayOf.ofDims at h
  simp only at h
  split at h
  · cases h
  next count hcount =>
    obtain ⟨hvolume, -⟩ := foldl_checked (p := fun n => n < 2 ^ 64) hcount
    rw [if_neg (not_or.mpr ⟨hne, by omega⟩)] at h
    split at h
    · cases h
    next hlength =>
      split at h
      · cases h
      · exact ⟨(Except.ok.inj h).symm, by omega⟩

/-! ### The outcome -/

/-- The types whose values are no tables on the script side: scalars other than documents, and
enums. -/
def Plain (type : TypeDescriptor) : Prop :=
  (type.kind = .base ∧ ∃ s, Scalar.ofId? type.id = some s ∧ s ≠ .json) ∨
    ∃ labels, type.kind = .enum labels

/-- What a value is converted to at such a type. -/
def elementOutcome (type : TypeDescriptor) (m : Int32) : ScriptValue → Outcome (Option Datum)
  | .nil => .ok none
  | v => plainToRelational v type m

/-- The array with the given slots. -/
def storedArray (b : Border) (element : TypeId) (dims : List ArrayDim)
    (slots : List (Option Datum)) : Outcome Datum := do
  let array ← ArrayOf.ofDims element dims slots
  let (len, align) ← storage b.catalog element
  let size := array.encodedSizeFor len align
  if b.options.maxAllocSize < size then throw (sizeExceeded size b.options.maxAllocSize)
  return .array array

/-- An array that is stored has the given slots, as many as its dimensions describe, and its stored
size is not above the ceiling. -/
theorem storedArray_ok {b : Border} {element : TypeId} {dims : List ArrayDim}
    {slots : List (Option Datum)} {d : Datum} (hne : dims ≠ []) (hdims : ∀ d ∈ dims, Extent d)
    (h : storedArray b element dims slots = .ok d) :
    d = .array ⟨element, dims, slots⟩ ∧ slots.length = volume dims ∧
      ∃ len align, storage b.catalog element = .ok (len, align) ∧
        ArrayOf.encodedSizeFor ⟨element, dims, slots⟩ len align ≤ b.options.maxAllocSize := by
  unfold storedArray at h
  obtain ⟨a, ha, h⟩ := ok_of_bind_eq_ok h
  obtain ⟨⟨len, align⟩, hstorage, h⟩ := ok_of_bind_eq_ok h
  obtain ⟨rfl, hlength⟩ := ofDims_extents hne hdims ha
  simp only at h
  split at h
  · exact nomatch h
  next hsize =>
    exact ⟨(Except.ok.inj h).symm, hlength, len, align, hstorage, Nat.not_lt.mp hsize⟩

/-- What a table is converted to as an array, when `outcome` says what its values are converted to
and `leafTables` whether tables are values. -/
def nestOutcome (b : Border) (element : TypeId) (leafTables : Bool)
    (outcome : ScriptValue → Outcome (Option Datum)) (entries : ScriptTable) :
    Outcome (Option Datum) := do
  let dims ← scan b.options.maxArrayDims leafTables entries
  if dims.isEmpty then return some (.array (ArrayOf.empty element))
  match slotCount? b.options.maxAllocSize dims with
  | none => throw (slotsExceeded b.options.maxAllocSize)
  | some count =>
    let placed ← (placements dims entries).mapM fun p => do
      let d ← outcome p.2
      return (p.1, d)
    let array ← storedArray b element dims (scatter count placed)
    return some array

/-- What a table is converted to as an array of such elements. -/
def tableOutcome (b : Border) (element : TypeId) (etype : TypeDescriptor) (em : Int32)
    (entries : ScriptTable) : Outcome (Option Datum) := do
  let dims ← scan b.options.maxArrayDims false entries
  if dims.isEmpty then return some (.array (ArrayOf.empty element))
  match slotCount? b.options.maxAllocSize dims with
  | none => throw (slotsExceeded b.options.maxAllocSize)
  | some count =>
    let placed ← (placements dims entries).mapM fun p => do
      let d ← elementOutcome etype em p.2
      return (p.1, d)
    let array ← storedArray b element dims (scatter count placed)
    return some array

variable {b : Border} {element t : TypeId} {type etype : TypeDescriptor} {m m' em : Int32}

/-- A table is refused where a value of such a type is asked for. -/
theorem plainToRelational_table (hplain : Plain etype) (entries : ScriptTable) :
    plainToRelational (.table entries) etype em =
      .error (.conversion s!"cannot convert table to {etype.name}") := by
  have hvia : viaText (.table entries) etype em =
      .error (.conversion s!"cannot convert table to {etype.name}") := rfl
  unfold plainToRelational
  obtain ⟨hkind, s, hscalar, hjson⟩ | ⟨labels, hkind⟩ := hplain
  · rw [hkind]
    unfold scalarToRelational
    rw [hscalar]
    -- the integers, the doubles and the texts each have their own way of refusing it
    cases s with
    | json => exact absurd rfl hjson
    | _ => rfl
  · rw [hkind]
    simp only [hvia]
    rfl

theorem elementOutcome_indexed (hplain : Plain etype) (v : ScriptValue) :
    elementOutcome etype em v.indexed = elementOutcome etype em v := by
  cases v with
  | table sub =>
    show plainToRelational _ etype em = plainToRelational _ etype em
    rw [plainToRelational_table hplain, ScriptValue.indexed, plainToRelational_table hplain]
  | _ => rfl

/-- Entries under texts have no influence. -/
theorem tableOutcome_indexed (hplain : Plain etype) (entries : ScriptTable) :
    tableOutcome b element etype em (ScriptTable.indexed entries) =
      tableOutcome b element etype em entries := by
  have hscan : scan b.options.maxArrayDims false (ScriptTable.indexed entries) =
      scan b.options.maxArrayDims false entries := by
    unfold scan
    rw [scanEntries_indexed]
  unfold tableOutcome placements
  rw [hscan]
  simp only [placementsFrom_indexed, List.mapM_map, Function.comp_def,
    elementOutcome_indexed hplain]

/-- A value is converted at such a type without another look at the catalog. -/
theorem yields_convert_element
    (helement : Catalog.resolveDomain b.catalog element m = .ok (etype, em)) (hplain : Plain etype)
    (ofTuple : RowValue → RowLayout → Resolving RowValue) (v : ScriptValue) :
    Yields b.catalog (convert b ofTuple v element m) (elementOutcome etype em v) := by
  cases v with
  | nil =>
    unfold convert
    exact yields_pure none
  | table entries =>
    unfold convert
    refine (yields_resolved helement).bind ?_
    obtain ⟨hkind, -⟩ | ⟨labels, hkind⟩ := hplain
    · simp only [hkind]
      exact yields_liftExcept _
    · simp only [hkind]
      exact yields_liftExcept _
  | tuple row =>
    unfold convert
    refine (yields_resolved helement).bind ?_
    obtain ⟨hkind, -⟩ | ⟨labels, hkind⟩ := hplain
    · simp only [hkind, reduceCtorEq, false_and, if_false]
      exact yields_liftExcept _
    · simp only [hkind, reduceCtorEq, false_and, if_false]
      exact yields_liftExcept _
  | _ => exact yields_convert_plain helement (by simp) ofTuple

theorem yields_storedArray (dims : List ArrayDim) (slots : List (Option Datum)) :
    Yields b.catalog (arrayOfSlots b element dims slots) (storedArray b element dims slots) := by
  unfold arrayOfSlots storedArray
  refine (yields_liftExcept _).bind_outcome fun array => ?_
  refine (yields_elementStorage element).bind_outcome fun storage => ?_
  simp only
  split
  · exact (yields_throw _).bind_error _
  · exact yields_pure _

/-- A table is converted to an array as its values are. -/
theorem yields_convert_nest {ofTuple : RowValue → RowLayout → Resolving RowValue}
    {outcome : ScriptValue → Outcome (Option Datum)}
    (hresolve : Catalog.resolveDomain b.catalog t m = .ok (type, m'))
    (hkind : type.kind = .array element)
    (helement : Catalog.resolveDomain b.catalog element (-1) = .ok (etype, em))
    (houtcome : ∀ v, Yields b.catalog (convert b ofTuple v element (-1)) (outcome v))
    (entries : ScriptTable) :
    Yields b.catalog (convert b ofTuple (.table entries) t m)
      (nestOutcome b element (etype.isRow || etype.id == Scalar.json.id) outcome entries) := by
  unfold convert nestOutcome
  refine (yields_resolved hresolve).bind ?_
  simp only [hkind]
  refine (yields_tablesAreLeaves helement).bind ?_
  refine (yields_liftExcept _).bind_outcome fun dims => ?_
  split
  · exact yields_pure _
  · cases slotCount? b.options.maxAllocSize dims with
    | none => exact yields_throw _
    | some count =>
      simp only [traverseMem_eq_mapM]
      refine (yields_mapM_outcome (fun p => ?_) _).bind_outcome fun placed => ?_
      · exact (houtcome p.2).bind_outcome fun d => yields_pure _
      · exact (yields_storedArray dims _).bind_outcome fun array => yields_pure _

/-- No enum of a host has the identifier of a type whose tables count as elements. -/
theorem enumsApart_of_defined {h : Host} (hdefined : h.Defined) (hcatalog : b.catalog = h.catalog) :
    EnumsApart b := by
  intro t m type m' labels hresolve hkind
  obtain ⟨⟨id, hid⟩, -⟩ := Catalog.resolveDomain_ok hresolve
  rw [hcatalog] at hid
  have hle := hdefined.enum_id hid hkind
  constructor
  · intro heq
    rw [heq] at hle
    exact absurd hle (by decide)
  · intro heq
    rw [heq] at hle
    exact absurd hle (by decide)

/-- Tables are no elements of an array of such elements. -/
theorem leafTables_plain (henum : EnumsApart b)
    (helement : Catalog.resolveDomain b.catalog element (-1) = .ok (etype, em))
    (hplain : Plain etype) : (etype.isRow || etype.id == Scalar.json.id) = false := by
  unfold TypeDescriptor.isRow
  obtain ⟨hkind, s, hscalar, hjson⟩ | ⟨labels, hkind⟩ := hplain
  · have hrecord : etype.id ≠ TypeId.record := by
      intro heq
      rw [heq] at hscalar
      exact nomatch hscalar
    have hid : etype.id ≠ Scalar.json.id := by
      intro heq
      rw [heq, Scalar.ofId?_id] at hscalar
      exact hjson (Option.some.inj hscalar).symm
    simp [hkind, hrecord, hid]
  · obtain ⟨hrecord, hid⟩ := henum _ _ _ _ labels helement hkind
    simp [hkind, hrecord, hid]

/-- A table is converted to an array as its chains say. -/
theorem yields_convert_table (henum : EnumsApart b)
    (hresolve : Catalog.resolveDomain b.catalog t m = .ok (type, m'))
    (hkind : type.kind = .array element)
    (helement : Catalog.resolveDomain b.catalog element (-1) = .ok (etype, em))
    (hplain : Plain etype) (ofTuple : RowValue → RowLayout → Resolving RowValue)
    (entries : ScriptTable) :
    Yields b.catalog (convert b ofTuple (.table entries) t m)
      (tableOutcome b element etype em entries) := by
  have hyields := yields_convert_nest hresolve hkind helement
    (yields_convert_element helement hplain ofTuple) entries
  rw [leafTables_plain henum helement hplain] at hyields
  exact hyields

/-! ### What the outcome says of the table -/

/-- A chain as long as there are dimensions lies within them. -/
theorem Outline.within {maxDims : Nat} {entries : ScriptTable} {dims : List ArrayDim}
    (h : Outline maxDims entries dims) {chain : List Int} {v : ScriptValue}
    (hchain : Leads entries chain v) (hlength : chain.length = dims.length) :
    Within dims chain := by
  refine List.forall₂_iff_get.mpr ⟨hlength.symm, fun level hd hk => ?_⟩
  have hkey := hchain.mem_levelKeys (List.getElem?_eq_getElem hk)
  have hdim : dims[level]? = some dims[level] := List.getElem?_eq_getElem hd
  exact ⟨(h.least level _ hdim).2 hkey, (h.greatest level _ hdim).2 hkey⟩

/-- The array that was made of a table. A chain ends in a value or in a table that has no chains;
`levelKeys` has the keys before either. -/
structure Describes (b : Border) (element : TypeId) (entries : ScriptTable) (a : ArrayValue) :
    Prop where
  elementType : a.elementType = element
  regular : Regular a
  empty : a.elements = [] ↔ ∀ chain v, Leads entries chain v → v.isTable = true
  even : ∀ chain v, Leads entries chain v → v.isTable = false → chain.length = a.dims.length
  maxDims : a.dims.length ≤ b.options.maxArrayDims
  least : ∀ level d, a.dims[level]? = some d →
    IsLeast {i | i ∈ levelKeys level entries} d.lower.toInt
  greatest : ∀ level d, a.dims[level]? = some d →
    IsGreatest {i | i ∈ levelKeys level entries} d.upper.toInt
  converted : a.dims ≠ [] → ∀ s : List Int32, Within a.dims (s.map Int32.toInt) →
    ∃ i x, a.offset? s = some i ∧ a.elements[i]? = some x ∧
      (∀ v, Leads entries (s.map Int32.toInt) v → ∀ c : TypeCache, c.Coherent b.catalog →
        (toRelational b v element (-1) c).1 = .ok x) ∧
      ((∀ v, ¬Leads entries (s.map Int32.toInt) v) → x = none)

/-- A table that is no nest of an array: values at the end of chains of different length, a key that
does not fit thirty-two bits, or more levels than an array may have dimensions. -/
inductive Irregular (maxDims : Nat) (entries : ScriptTable) : Prop
  | uneven {chain chain' : List Int} {v v' : ScriptValue} (h : Leads entries chain v)
      (hv : v.isTable = false) (h' : Leads entries chain' v') (hv' : v'.isTable = false)
      (hne : chain.length ≠ chain'.length)
  | range {chain : List Int} {v : ScriptValue} {i : Int} (h : Leads entries chain v)
      (hi : i ∈ chain) (hrange : ¬InRange i)
  | deep {chain : List Int} {v : ScriptValue} (h : Leads entries chain v)
      (hdeep : maxDims < chain.length)

/-- What has an outline is not irregular. -/
theorem Outline.not_irregular {maxDims : Nat} {entries : ScriptTable} {dims : List ArrayDim}
    (h : Outline maxDims entries dims) : ¬Irregular maxDims entries := by
  intro hirregular
  cases hirregular with
  | uneven hchain hv hchain' hv' hne =>
    exact hne ((h.even _ _ hchain hv).trans (h.even _ _ hchain' hv').symm)
  | range hchain hi hrange => exact hrange (h.range _ _ hchain _ hi)
  | deep hchain hdeep => exact absurd (h.fits _ _ hchain) (Nat.not_le.mpr hdeep)

/-- Without dimensions nothing but tables can be reached. -/
theorem Outline.describes_empty {entries : ScriptTable}
    (h : Outline b.options.maxArrayDims entries []) :
    Describes b element entries (ArrayOf.empty element) := by
  have hnone : ∀ chain v, Leads entries chain v → v.isTable ≠ false := by
    intro chain v hchain hv
    exact hchain.ne_nil (List.eq_nil_of_length_eq_zero (h.even chain v hchain hv))
  constructor
  case elementType => rfl
  case regular => exact .empty element
  case empty =>
    constructor
    · intro _ chain v hchain
      exact Bool.eq_true_of_not_eq_false (hnone chain v hchain)
    · exact fun _ => rfl
  case even => exact fun chain v hchain hv => absurd hv (hnone chain v hchain)
  case maxDims => exact Nat.zero_le _
  case least => exact fun level d hd => nomatch hd
  case greatest => exact fun level d hd => nomatch hd
  case converted => exact fun hne => absurd rfl hne

/-- The values of a table in the places of their chains, each one converted. -/
def Placed (etype : TypeDescriptor) (em : Int32) (dims : List ArrayDim) (entries : ScriptTable)
    (placed : List (Nat × Option Datum)) : Prop :=
  List.Forall₂ (fun p q => p.1 = q.1 ∧ elementOutcome etype em p.2 = .ok q.2)
    (placements dims entries) placed

/-- What is placed at subscripts is what the value at the end of the chain is converted to. -/
theorem Outline.value_of_placed {maxDims : Nat} {entries : ScriptTable} {dims : List ArrayDim}
    {placed : List (Nat × Option Datum)} (h : Outline maxDims entries dims)
    (hplaced : Placed etype em dims entries placed) {chain : List Int} {y : Option Datum}
    (hwithin : Within dims chain) (hy : (place dims chain, y) ∈ placed) :
    ∃ v, Leads entries chain v ∧ elementOutcome etype em v = .ok y := by
  obtain ⟨⟨slot, v⟩, hp, hslot, hv⟩ := exists_of_forall₂ (List.Forall₂.flip hplaced) hy
  obtain ⟨-, chain', hlen, hchain', heq⟩ := mem_placementsFrom.mp hp
  -- the place is that of one chain only
  have hwithin' := h.within hchain' hlen
  have hplace : place dims chain' = place dims chain := by omega
  rw [← subscriptsAt_place hwithin, ← hplace, subscriptsAt_place hwithin']
  exact ⟨v, hchain', hv⟩

/-- The slot of subscripts has the value at the end of the chain, or NULL where there is none. -/
theorem Outline.getElem?_scatter {maxDims : Nat} {entries : ScriptTable} {dims : List ArrayDim}
    {placed : List (Nat × Option Datum)} (h : Outline maxDims entries dims)
    (hkeyed : ScriptValue.Keyed (.table entries)) (hne : dims ≠ [])
    (hplaced : Placed etype em dims entries placed) {chain : List Int}
    (hwithin : Within dims chain) :
    ∃ x, (scatter (volume dims) placed)[place dims chain]? = some x ∧
      (∀ v, Leads entries chain v → elementOutcome etype em v = .ok x) ∧
      ((∀ v, ¬Leads entries chain v) → x = none) := by
  have hlt := place_lt hwithin
  by_cases hleads : ∃ v, Leads entries chain v
  · obtain ⟨v, hv⟩ := hleads
    obtain ⟨⟨slot, x⟩, hx, hslot, hconverted⟩ := exists_of_forall₂ hplaced
      (mem_placementsFrom.mpr ⟨hne, _, hwithin.length_eq.symm, hv, (Nat.zero_add _).symm⟩)
    obtain rfl : place dims chain = slot := hslot
    -- no key stands twice, so all that is placed here comes from one value
    have hsame : ∀ y, (place dims chain, y) ∈ placed → y = x := by
      intro y hy
      obtain ⟨w, hw, hwy⟩ := h.value_of_placed hplaced hwithin hy
      rw [leads_unique hkeyed hw hv, hconverted] at hwy
      exact (Except.ok.inj hwy).symm
    refine ⟨x, Marshal.getElem?_scatter hlt hsame (Or.inl ⟨x, hx⟩), fun w hw => ?_, ?_⟩
    · rw [leads_unique hkeyed hw hv]
      exact hconverted
    · exact fun hnone => absurd hv (hnone v)
  · have hnone : ∀ v, ¬Leads entries chain v := fun v hv => hleads ⟨v, hv⟩
    have hsame : ∀ y, (place dims chain, y) ∈ placed → y = none := by
      intro y hy
      obtain ⟨w, hw, -⟩ := h.value_of_placed hplaced hwithin hy
      exact absurd hw (hnone w)
    exact ⟨none, Marshal.getElem?_scatter hlt hsame (Or.inr rfl), fun v hv => absurd hv (hnone v),
      fun _ => rfl⟩

/-- With the values of a table in their slots, the array is the one that the table describes. -/
theorem Outline.describes {entries : ScriptTable} {dims : List ArrayDim}
    {placed : List (Nat × Option Datum)} (h : Outline b.options.maxArrayDims entries dims)
    (hkeyed : ScriptValue.Keyed (.table entries)) (hne : dims ≠ [])
    (helement : Catalog.resolveDomain b.catalog element (-1) = .ok (etype, em))
    (hplain : Plain etype)
    (hplaced : Placed etype em dims entries placed) :
    Describes b element entries ⟨element, dims, scatter (volume dims) placed⟩ := by
  have hlength : (scatter (volume dims) placed).length = volume dims := length_scatter _ _
  have hregular : Regular ⟨element, dims, scatter (volume dims) placed⟩ :=
    .filled hne h.extents hlength
  constructor
  case elementType => rfl
  case regular => exact hregular
  case empty =>
    -- The place of some value is within the dimensions, so there is an element.
    obtain ⟨chain, v, hchain, hv⟩ := h.reached hne
    constructor
    · intro hnil
      have hlt := place_lt (h.within hchain (h.even chain v hchain hv))
      have hzero : (scatter (volume dims) placed).length = 0 := List.length_eq_zero_iff.mpr hnil
      omega
    · intro hall
      rw [hall chain v hchain] at hv
      exact nomatch hv
  case even => exact h.even
  case maxDims =>
    obtain ⟨chain, v, hchain, hv⟩ := h.reached hne
    exact (h.even chain v hchain hv) ▸ h.fits chain v hchain
  case least => exact h.least
  case greatest =>
    intro level d hd
    rw [ArrayDim.toInt_upper (h.extents d (List.mem_of_getElem? hd))]
    exact h.greatest level d hd
  case converted =>
    intro _ s hs
    obtain ⟨x, hslot, hvalue, hnone⟩ := h.getElem?_scatter hkeyed hne hplaced hs
    refine ⟨_, x, (offset?_eq_some_iff hregular hne).mpr ⟨hs, rfl⟩, hslot, ?_, hnone⟩
    intro v hv c hc
    obtain ⟨c', hyields, -⟩ := yields_convert_element helement hplain (retype b) v c hc
    rw [hvalue v hv] at hyields
    exact congrArg Prod.fst hyields

/-- An array that comes out is empty, or has the values of the table in their slots. -/
theorem tableOutcome_ok {entries : ScriptTable} {r : Option Datum}
    (h : tableOutcome b element etype em entries = .ok r) :
    (scan b.options.maxArrayDims false entries = .ok [] ∧
      r = some (.array (ArrayOf.empty element))) ∨
    ∃ dims placed, scan b.options.maxArrayDims false entries = .ok dims ∧ dims ≠ [] ∧
      Placed etype em dims entries placed ∧
      r = some (.array ⟨element, dims, scatter (volume dims) placed⟩) := by
  unfold tableOutcome at h
  obtain ⟨dims, hscan, h⟩ := ok_of_bind_eq_ok h
  split at h
  next hempty =>
    obtain rfl := List.isEmpty_iff.mp hempty
    exact Or.inl ⟨hscan, (Except.ok.inj h).symm⟩
  next hsome =>
    have hne : dims ≠ [] := fun hnil => hsome (List.isEmpty_iff.mpr hnil)
    split at h
    · cases h
    next count hcount =>
      obtain ⟨placed, hplaced, h⟩ := ok_of_bind_eq_ok h
      obtain ⟨d, hd, h⟩ := ok_of_bind_eq_ok h
      obtain rfl := Except.ok.inj h
      obtain ⟨rfl, hlength, -⟩ := storedArray_ok hne (outline_scan hscan).extents hd
      rw [length_scatter] at hlength
      subst hlength
      -- What was placed is converted place by place.
      refine Or.inr ⟨dims, placed, hscan, hne, ?_, rfl⟩
      refine (ok_of_mapM_eq_ok hplaced).imp fun p q hpq => ?_
      obtain ⟨x, hx, hq⟩ := ok_of_bind_eq_ok hpq
      obtain rfl := Except.ok.inj hq
      exact ⟨rfl, hx⟩

/-- An array that comes out is the one that the table describes. -/
theorem describes_of_tableOutcome {entries : ScriptTable}
    (hkeyed : ScriptValue.Keyed (.table entries))
    (helement : Catalog.resolveDomain b.catalog element (-1) = .ok (etype, em))
    (hplain : Plain etype) {r : Option Datum}
    (h : tableOutcome b element etype em entries = .ok r) :
    ∃ a, r = some (.array a) ∧ Describes b element entries a := by
  rcases tableOutcome_ok h with ⟨hscan, rfl⟩ | ⟨dims, placed, hscan, hne, hplaced, rfl⟩
  · exact ⟨_, rfl, (outline_scan hscan).describes_empty⟩
  · exact ⟨_, rfl, (outline_scan hscan).describes hkeyed hne helement hplain hplaced⟩

/-- A table whose chains do not fit together is refused. -/
theorem tableOutcome_irregular {entries : ScriptTable}
    (h : Irregular b.options.maxArrayDims entries) :
    ∃ text, tableOutcome b element etype em entries = .error (.conversion text) := by
  unfold tableOutcome
  cases hscan : scan b.options.maxArrayDims false entries with
  | ok dims => exact absurd h (outline_scan hscan).not_irregular
  | error f =>
    obtain ⟨text, rfl⟩ := scan_error hscan
    exact ⟨text, rfl⟩

/-- In the catalog of a host, take an array type whose elements are scalars other than documents, or
enums, and a table in which no key stands twice. An array that the table is converted to is
described by the chains of integer keys in the table. The entries under texts make no difference,
also when the table is refused. A table whose chains do not fit together is refused with a
conversion error. -/
theorem toRelational_table {h : Host} (hdefined : h.Defined) (b : Border)
    (hcatalog : b.catalog = h.catalog) {element t : TypeId} {m m' em : Int32}
    {type etype : TypeDescriptor}
    (hresolve : Catalog.resolveDomain b.catalog t m = .ok (type, m'))
    (hkind : type.kind = .array element)
    (helement : Catalog.resolveDomain b.catalog element (-1) = .ok (etype, em))
    (hplain : Plain etype) {entries : ScriptTable} (hkeyed : ScriptValue.Keyed (.table entries))
    (c : TypeCache) (hc : c.Coherent b.catalog) :
    (∀ r, (toRelational b (.table entries) t m c).1 = .ok r →
      ∃ a, r = some (.array a) ∧ Describes b element entries a) ∧
    (toRelational b (.table (ScriptTable.indexed entries)) t m c).1 =
      (toRelational b (.table entries) t m c).1 ∧
    (Irregular b.options.maxArrayDims entries →
      ∃ text, (toRelational b (.table entries) t m c).1 = .error (.conversion text)) := by
  have henum := enumsApart_of_defined hdefined hcatalog
  have houtcome : ∀ table : ScriptTable, (toRelational b (.table table) t m c).1 =
      tableOutcome b element etype em table := by
    intro table
    obtain ⟨c', hyields, -⟩ :=
      yields_convert_table henum hresolve hkind helement hplain (retype b) table c hc
    exact congrArg Prod.fst hyields
  rw [houtcome, houtcome]
  exact ⟨fun r hr => describes_of_tableOutcome hkeyed helement hplain hr,
    tableOutcome_indexed hplain entries, tableOutcome_irregular⟩

/-- The conversions over the builtin types, with the default options. -/
def builtinBorder : Border :=
  { catalog := Host.new.catalog, hasPortal := fun _ => false, options := {} }

/-- Three rows around subscript 0: the middle one is empty, and the keys that the others have are
different ones. -/
def raggedRows : ScriptTable :=
  [(.int (-1), .table [(.int 3, .int 7), (.text "note", .bool true)]), (.int 0, .table []),
    (.int 1, .table [(.int 2, .ofText "8")]), (.text "title", .ofText "rows")]

/-- The matrix that they become. -/
def raggedMatrix : ArrayValue :=
  ⟨Scalar.int4.id, [⟨3, -1⟩, ⟨2, 2⟩], [none, some (.int4 7), none, none, some (.int4 8), none]⟩

/-- A number beside a list. -/
def unevenRows : ScriptTable := [(.int 1, .int 5), (.int 2, .table [(.int 1, .int 6)])]

/-- The rows become the matrix that they describe; a number beside a list becomes nothing. -/
theorem toRelational_table_rows :
    (toRelational builtinBorder (.table raggedRows) 1007 (-1) {}).1 =
        .ok (some (.array raggedMatrix)) ∧
      Describes builtinBorder Scalar.int4.id raggedRows raggedMatrix ∧
      ∃ text, (toRelational builtinBorder (.table unevenRows) 1007 (-1) {}).1 =
        .error (.conversion text) := by
  have hrows : ScriptValue.Keyed (.table raggedRows) := by
    refine .table (by decide) fun k v hmem => ?_
    simp only [raggedRows, List.mem_cons, Prod.mk.injEq, List.not_mem_nil, or_false] at hmem
    rcases hmem with ⟨-, rfl⟩ | ⟨-, rfl⟩ | ⟨-, rfl⟩ | ⟨-, rfl⟩
    · refine .table (by decide) fun k v hmem => ?_
      simp only [List.mem_cons, Prod.mk.injEq, List.not_mem_nil, or_false] at hmem
      rcases hmem with ⟨-, rfl⟩ | ⟨-, rfl⟩ <;> exact .plain rfl
    · exact .table (by decide) fun k v hmem => absurd hmem List.not_mem_nil
    · refine .table (by decide) fun k v hmem => ?_
      simp only [List.mem_singleton, Prod.mk.injEq] at hmem
      rw [hmem.2]
      exact .plain rfl
    · exact .plain rfl
  have huneven : ScriptValue.Keyed (.table unevenRows) := by
    refine .table (by decide) fun k v hmem => ?_
    simp only [unevenRows, List.mem_cons, Prod.mk.injEq, List.not_mem_nil, or_false] at hmem
    rcases hmem with ⟨-, rfl⟩ | ⟨-, rfl⟩
    · exact .plain rfl
    · refine .table (by decide) fun k v hmem => ?_
      simp only [List.mem_singleton, Prod.mk.injEq] at hmem
      rw [hmem.2]
      exact .plain rfl
  obtain ⟨hdescribes, -, -⟩ := toRelational_table .new builtinBorder rfl (t := 1007) (m := -1) rfl
    rfl rfl (Or.inl ⟨rfl, .int4, rfl, by decide⟩) hrows {} (TypeCache.coherent_empty _)
  obtain ⟨-, -, hrefused⟩ := toRelational_table .new builtinBorder rfl (t := 1007) (m := -1) rfl rfl
    rfl (Or.inl ⟨rfl, .int4, rfl, by decide⟩) huneven {} (TypeCache.coherent_empty _)
  have hmatrix : (toRelational builtinBorder (.table raggedRows) 1007 (-1) {}).1 =
      .ok (some (.array raggedMatrix)) := by cbv
  -- The two values are at different depths.
  have hone : Leads unevenRows [(1 : Int64).toInt] (.int 5) := .here (by simp [unevenRows])
  have htwo : Leads unevenRows [(2 : Int64).toInt, (1 : Int64).toInt] (.int 6) :=
    .through (List.mem_cons_of_mem _ List.mem_cons_self) (.here List.mem_cons_self)
  obtain ⟨a, ha, hrow⟩ := hdescribes _ hmatrix
  obtain rfl := Datum.array.inj (Option.some.inj ha)
  exact ⟨hmatrix, hrow, hrefused (.uneven hone rfl htwo rfl (by simp))⟩

end Marshal

end StoredRoutine
