import StoredRoutine.Proofs.Marshal.Tables
import StoredRoutine.Proofs.Marshal.Transparent
import StoredRoutine.Proofs.Marshal.Words

/-!
# `StoredRoutine.Proofs.Marshal.Limits`: arrays under the ceilings

Options put two ceilings on an array: on the slots that are laid out for it, and on its stored size.
A table whose array would be above one of them is refused, and the array that comes out otherwise is
a whole one (`toRelational_array_limits`). For this the bounds of the scan are all that matters:

* `nestOutcome_slotsExceeded`: with more slots than there may be, no value is converted;
* `nestOutcome_filled`: with as many as there may be, the values stand in their slots, and what
  remains to be checked is the stored size;
* `withinLimits_of_nestOutcome`: whatever comes out is within the limits.
-/

set_option autoImplicit false

namespace StoredRoutine

/-! ### Coherent caches -/

namespace TypeCache

/-- A cache is coherent if it answers like one that keeps nothing. -/
theorem coherent_iff_alike {catalog : Catalog.Lookup} {c : TypeCache} :
    c.Coherent catalog ↔ Alike catalog c {} := by
  constructor
  · intro h id
    rw [get_fst, get_fst]
    cases hfind : c.find? id with
    | none => rfl
    | some d => exact (h id d hfind).symm
  · intro h id d hfind
    have halike := h id
    rw [get_fst, get_fst, hfind] at halike
    exact halike.symm

end TypeCache

/-- A transparent computation yields what it yields when nothing is kept. -/
theorem Resolving.Transparent.yields {catalog : Catalog.Lookup} {α : Type} {x : Resolving α}
    (hx : Transparent catalog x) : Yields catalog x (x {}).1 := by
  intro c hc
  have halike := TypeCache.coherent_iff_alike.mp hc
  refine ⟨(x c).2, ?_, TypeCache.coherent_iff_alike.mpr ((hx.kept c).symm.trans halike)⟩
  exact Prod.ext (hx.same c {} halike) rfl

namespace Marshal

open Datum (ok_of_bind_eq_ok)
open Resolving

variable {b : Border} {element t : TypeId} {type etype : TypeDescriptor} {m m' em : Int32}
  {entries : ScriptTable} {leafTables : Bool} {outcome : ScriptValue → Outcome (Option Datum)}

/-! ### The outcome and the bounds -/

/-- The dimensions that a scan answers are those of its bounds. -/
theorem scan_of_scanEntries {maxDims depth : Nat} {bounds : Bounds}
    (h : scanEntries maxDims leafTables 0 none [] entries = .ok (some depth, bounds)) :
    scan maxDims leafTables entries = .ok ((bounds.take depth).map dimOfBounds) := by
  unfold scan
  rw [h]
  rfl

/-- Where a scan answers dimensions, it has found their bounds. -/
theorem exists_bounded {maxDims : Nat} {dims : List ArrayDim} (hne : dims ≠ [])
    (h : scan maxDims leafTables entries = .ok dims) :
    ∃ levels, Bounded maxDims levels entries ∧ dims = levels.map dimOfBounds := by
  unfold scan at h
  obtain ⟨⟨depth, bounds⟩, hscan, hdims⟩ := Datum.ok_of_map_eq_ok h
  cases depth with
  | none => exact absurd hdims.symm hne
  | some depth => exact ⟨_, (bounded_scanEntries hscan).2, hdims.symm⟩

/-- An array with dimensions, slots and a stored size that the options allow. -/
structure WithinLimits (b : Border) (element : TypeId) (a : ArrayValue) : Prop where
  maxDims : a.dims.length ≤ b.options.maxArrayDims
  count : a.elements.length = volume a.dims
  slots : a.elements.length ≤ b.options.maxAllocSize / slotBytes
  size : ∃ len align, storage b.catalog element = .ok (len, align) ∧
    a.encodedSizeFor len align ≤ b.options.maxAllocSize

/-- What comes out is an array that is empty or within the limits. -/
theorem withinLimits_of_nestOutcome {r : Option Datum}
    (h : nestOutcome b element leafTables outcome entries = .ok r) :
    ∃ a, r = some (.array a) ∧ (a.elements = [] ∨ WithinLimits b element a) := by
  unfold nestOutcome at h
  obtain ⟨dims, hscan, h⟩ := ok_of_bind_eq_ok h
  split at h
  next => exact ⟨_, (Except.ok.inj h).symm, .inl rfl⟩
  next hsome =>
    have hne : dims ≠ [] := fun hnil => hsome (List.isEmpty_iff.mpr hnil)
    obtain ⟨levels, hbounded, rfl⟩ := exists_bounded hne hscan
    rw [slotCount?_eq hne hbounded.extents] at h
    split at h
    · cases h
    next count hcount =>
      obtain ⟨hslots, hcount⟩ := Option.ite_none_right_eq_some.mp hcount
      obtain rfl := Option.some.inj hcount
      obtain ⟨placed, -, h⟩ := ok_of_bind_eq_ok h
      obtain ⟨d, hd, h⟩ := ok_of_bind_eq_ok h
      obtain ⟨rfl, hlength, hsize⟩ := storedArray_ok hne hbounded.extents hd
      refine ⟨_, (Except.ok.inj h).symm, .inr ⟨?_, hlength, hlength.trans_le hslots, hsize⟩⟩
      rw [List.length_map]
      exact hbounded.length_le

section

variable {dims : List ArrayDim}

/-- A table with more slots than there may be is refused, whatever its values are. -/
theorem nestOutcome_slotsExceeded
    (hscan : scan b.options.maxArrayDims leafTables entries = .ok dims) (hne : dims ≠ [])
    (hdims : ∀ d ∈ dims, Extent d)
    (hexceeded : b.options.maxAllocSize / slotBytes < volume dims) :
    nestOutcome b element leafTables outcome entries =
      .error (slotsExceeded b.options.maxAllocSize) := by
  have hempty : ¬dims.isEmpty = true := mt List.isEmpty_iff.mp hne
  have hcount : slotCount? b.options.maxAllocSize dims = none := by
    rw [slotCount?_eq hne hdims, if_neg (Nat.not_le.mpr hexceeded)]
  unfold nestOutcome
  rw [hscan]
  show (if _ then _ else _) = _
  rw [if_neg hempty, hcount]
  rfl

/-- An array comes out only if all values are converted. -/
theorem converted_of_nestOutcome
    (hscan : scan b.options.maxArrayDims leafTables entries = .ok dims) (hne : dims ≠ [])
    {r : Option Datum} (h : nestOutcome b element leafTables outcome entries = .ok r)
    {p : Nat × ScriptValue} (hp : p ∈ placements dims entries) : ∃ d, outcome p.2 = .ok d := by
  unfold nestOutcome at h
  rw [hscan] at h
  change (if _ then _ else _) = _ at h
  rw [if_neg (mt List.isEmpty_iff.mp hne)] at h
  split at h
  · cases h
  · obtain ⟨placed, hplaced, -⟩ := ok_of_bind_eq_ok h
    obtain ⟨q, -, hq⟩ := exists_of_forall₂ (ok_of_mapM_eq_ok hplaced) hp
    obtain ⟨d, hd, -⟩ := ok_of_bind_eq_ok hq
    exact ⟨d, hd⟩

/-- The array with the values of a table in their slots. -/
def filled (element : TypeId) (dims : List ArrayDim) (entries : ScriptTable)
    (value : ScriptValue → Option Datum) : ArrayValue :=
  ⟨element, dims,
    scatter (volume dims) ((placements dims entries).map fun p => (p.1, value p.2))⟩

/-- If the values are converted, the table becomes the array with all of them, unless the stored
size of this is above the ceiling. -/
theorem nestOutcome_filled (hword : b.options.maxAllocSize < 2 ^ 64)
    (hscan : scan b.options.maxArrayDims leafTables entries = .ok dims) (hne : dims ≠ [])
    (hdims : ∀ d ∈ dims, Extent d) (hroom : volume dims ≤ b.options.maxAllocSize / slotBytes)
    {value : ScriptValue → Option Datum}
    (hvalue : ∀ p ∈ placements dims entries, outcome p.2 = .ok (value p.2))
    {len : Int16} {align : Alignment} (hstorage : storage b.catalog element = .ok (len, align))
    {a : ArrayValue} (ha : a = filled element dims entries value) :
    nestOutcome b element leafTables outcome entries =
      if b.options.maxAllocSize < a.encodedSizeFor len align then
        .error (sizeExceeded (a.encodedSizeFor len align) b.options.maxAllocSize)
      else .ok (some (.array a)) := by
  have hempty : ¬dims.isEmpty = true := mt List.isEmpty_iff.mp hne
  have hcount : slotCount? b.options.maxAllocSize dims = some (volume dims) := by
    rw [slotCount?_eq hne hdims, if_pos hroom]
  have hplaced : ((placements dims entries).mapM fun p => do
      let d ← outcome p.2
      return (p.1, d)) =
      Except.ok ((placements dims entries).map fun p => (p.1, value p.2)) := by
    refine mapM_eq_pure_map fun p hp => ?_
    rw [hvalue p hp]
    rfl
  have harray : ArrayOf.ofDims element dims
      (scatter (volume dims) ((placements dims entries).map fun p => (p.1, value p.2))) =
      .ok a := by
    rw [ha]
    exact ofDims_eq hne hdims (length_scatter _ _)
      (Nat.lt_of_le_of_lt (Nat.le_trans hroom (Nat.div_le_self _ _)) hword)
  -- every check on the way is passed, up to that of the stored size
  unfold nestOutcome
  rw [hscan]
  show (if _ then _ else _) = _
  rw [if_neg hempty, hcount]
  show (_ >>= _) = _
  rw [hplaced]
  show (storedArray b element dims _ >>= _) = _
  unfold storedArray
  rw [harray, hstorage]
  show ((if _ then _ else _) >>= _) = _
  split <;> rfl

end

/-! ### The conversion -/

/-- Without a type for the elements there is no array. -/
theorem yields_convert_unresolved {ofTuple : RowValue → RowLayout → Resolving RowValue}
    {f : Failure}
    (hresolve : Catalog.resolveDomain b.catalog t m = .ok (type, m'))
    (hkind : type.kind = .array element)
    (helement : Catalog.resolveDomain b.catalog element (-1) = .error f) :
    Yields b.catalog (convert b ofTuple (.table entries) t m) (.error f) := by
  have hlookup : Yields b.catalog (resolveDomain b.catalog element (-1)) (.error f) :=
    helement ▸ yields_resolveDomain element (-1)
  have hleaves : Yields b.catalog (tablesAreLeaves b element) (.error f) := hlookup.bind_error _
  unfold convert
  refine (yields_resolved hresolve).bind ?_
  simp only [hkind]
  exact hleaves.bind_error _

/-- A table is converted to an array as its values are. -/
theorem toRelational_nest {c : TypeCache} (hc : c.Coherent b.catalog)
    (hresolve : Catalog.resolveDomain b.catalog t m = .ok (type, m'))
    (hkind : type.kind = .array element)
    (helement : Catalog.resolveDomain b.catalog element (-1) = .ok (etype, em)) :
    (toRelational b (.table entries) t m c).1 =
      nestOutcome b element (etype.isRow || etype.id == Scalar.json.id)
        (fun v => (toRelational b v element (-1) {}).1) entries := by
  have hvalue : ∀ v, Yields b.catalog (convert b (retype b) v element (-1))
      (toRelational b v element (-1) {}).1 := fun v =>
    Transparent.yields (inferInstanceAs (Transparent b.catalog (toRelational b v element (-1))))
  obtain ⟨c', hyields, -⟩ := yields_convert_nest hresolve hkind helement hvalue entries c hc
  exact congrArg Prod.fst hyields

/-- Take an array type and a table in which no key stands twice. An array that the table is
converted to is empty or within the limits of the options. For the dimensions of a table nothing
overflows in the calculation of the slots; with more slots than the ceiling has room for the table
is refused, before a slot is laid out and whatever its values are; and otherwise each value has a
slot of its own, in the number that was checked. An array is the answer only if all these values are
converted, and then it is the one with all of them in their slots, unless its stored size is above
the ceiling: this is a failure. -/
theorem toRelational_array_limits (hword : b.options.maxAllocSize < 2 ^ 64)
    (hresolve : Catalog.resolveDomain b.catalog t m = .ok (type, m'))
    (hkind : type.kind = .array element) (hkeyed : ScriptValue.Keyed (.table entries))
    (c : TypeCache) (hc : c.Coherent b.catalog) :
    (∀ r, (toRelational b (.table entries) t m c).1 = .ok r →
      ∃ a, r = some (.array a) ∧ (a.elements = [] ∨ WithinLimits b element a)) ∧
    ∀ etype em, Catalog.resolveDomain b.catalog element (-1) = .ok (etype, em) →
    ∀ depth bounds,
      scanEntries b.options.maxArrayDims (etype.isRow || etype.id == Scalar.json.id) 0 none []
        entries = .ok (some depth, bounds) →
    depth ≤ bounds.length ∧
    ∀ levels dims, levels = bounds.take depth → dims = levels.map dimOfBounds →
      Exact b.options.maxAllocSize levels dims entries ∧
      (b.options.maxAllocSize / slotBytes < volume dims →
        (toRelational b (.table entries) t m c).1 =
          .error (slotsExceeded b.options.maxAllocSize)) ∧
      (∀ p ∈ placements dims entries, p.1 < volume dims) ∧
      ((placements dims entries).map Prod.fst).Nodup ∧
      (∀ r, (toRelational b (.table entries) t m c).1 = .ok r → ∀ p ∈ placements dims entries,
        ∃ d, (toRelational b p.2 element (-1) {}).1 = .ok d) ∧
      (volume dims ≤ b.options.maxAllocSize / slotBytes → ∀ value : ScriptValue → Option Datum,
        (∀ p ∈ placements dims entries,
          (toRelational b p.2 element (-1) {}).1 = .ok (value p.2)) →
        ∀ len align, storage b.catalog element = .ok (len, align) →
        ∀ a, a = filled element dims entries value →
          (toRelational b (.table entries) t m c).1 =
            if b.options.maxAllocSize < a.encodedSizeFor len align then
              .error (sizeExceeded (a.encodedSizeFor len align) b.options.maxAllocSize)
            else .ok (some (.array a))) := by
  constructor
  · intro r hr
    -- without the type of the elements nothing is accepted
    cases helement : Catalog.resolveDomain b.catalog element (-1) with
    | error f =>
      have hyields : Yields b.catalog (toRelational b (.table entries) t m) (.error f) :=
        yields_convert_unresolved hresolve hkind helement
      obtain ⟨c', hc', -⟩ := hyields c hc
      have herror : (toRelational b (.table entries) t m c).1 = .error f := congrArg Prod.fst hc'
      rw [herror] at hr
      exact nomatch hr
    | ok resolved =>
      rw [toRelational_nest hc hresolve hkind helement] at hr
      exact withinLimits_of_nestOutcome hr
  · intro etype em helement depth bounds hentries
    rw [toRelational_nest hc hresolve hkind helement]
    have hscan := scan_of_scanEntries hentries
    obtain ⟨hdepth, hbounded⟩ := bounded_scanEntries hentries
    refine ⟨hdepth, ?_⟩
    rintro levels dims rfl rfl
    have hne := hbounded.dims_ne_nil
    have hextents := hbounded.extents
    refine ⟨hbounded.calculated hword, nestOutcome_slotsExceeded hscan hne hextents,
      hbounded.lt_volume, hbounded.nodup hkeyed,
      fun r hr p hp => converted_of_nestOutcome hscan hne hr hp, ?_⟩
    intro hroom value hvalue len align hstorage a ha
    exact nestOutcome_filled hword hscan hne hextents hroom hvalue hstorage ha

/-- The conversions over the builtin types, with room for one slot. -/
def narrowBorder : Border := { builtinBorder with options := { maxAllocSize := 56 } }

/-- Two numbers. -/
def twoNumbers : ScriptTable := [(.int 1, .int 10), (.int 2, .int 20)]

/-- A text of thirty characters. -/
def longText : String := "a text longer than its ceiling"

/-- A list with the text. -/
def oneText : ScriptTable := [(.int 1, .ofText longText)]

/-- The array with the text. -/
def oneArray : ArrayValue := ⟨Scalar.text.id, [dimOfBounds (1, 1)], [some (.text longText)]⟩

/-- Two numbers have one slot too many, one text has a slot but takes too much space. -/
theorem toRelational_array_limits_narrow :
    (toRelational narrowBorder (.table twoNumbers) 1007 (-1) {}).1 = .error (slotsExceeded 56) ∧
      (toRelational narrowBorder (.table oneText) 1009 (-1) {}).1 =
        .error (sizeExceeded 58 56) := by
  have hnumbers : ScriptValue.Keyed (.table twoNumbers) := by
    refine .table (by decide) fun k v hmem => ?_
    simp only [twoNumbers, List.mem_cons, Prod.mk.injEq, List.not_mem_nil, or_false] at hmem
    rcases hmem with ⟨-, rfl⟩ | ⟨-, rfl⟩ <;> exact .plain rfl
  have htext : ScriptValue.Keyed (.table oneText) := by
    refine .table (by decide) fun k v hmem => ?_
    rw [(Prod.mk.inj (List.mem_singleton.mp hmem)).2]
    exact .plain rfl
  -- a ceiling of 56 bytes has room for one slot, and the text alone takes more
  have hvalue : (toRelational narrowBorder (.ofText longText) Scalar.text.id (-1) {}).1 =
      .ok (some (.text longText)) := by
    have htype : Catalog.resolveDomain narrowBorder.catalog Scalar.text.id (-1) =
        .ok (⟨Scalar.text.id, "text", .base, -1, false, .int⟩, -1) := rfl
    obtain ⟨c, hyields, -⟩ := yields_convert_element htype (.inl ⟨rfl, .text, rfl, by decide⟩)
      (retype narrowBorder) (.ofText longText) {} (TypeCache.coherent_empty _)
    refine (congrArg Prod.fst hyields).trans ?_
    show ((textOf (.ofText longText) ⟨Scalar.text.id, "text", .base, -1, false, .int⟩).map
      Datum.text).map some = _
    rw [textOf_ofText]
    rfl
  have hnumbersScan : scanEntries 6 false 0 none [] twoNumbers = .ok (some 1, [(1, 2)]) := by cbv
  have htextScan : scanEntries 6 false 0 none [] oneText = .ok (some 1, [(1, 1)]) := by cbv
  obtain ⟨-, hfirst⟩ := toRelational_array_limits (b := narrowBorder) (t := 1007) (m := -1)
    (by decide) rfl rfl hnumbers {} (TypeCache.coherent_empty _)
  obtain ⟨-, hsecond⟩ := toRelational_array_limits (b := narrowBorder) (t := 1009) (m := -1)
    (by decide) rfl rfl htext {} (TypeCache.coherent_empty _)
  obtain ⟨-, hlevels⟩ := hfirst _ _ rfl 1 [(1, 2)] hnumbersScan
  obtain ⟨-, hslots, -⟩ := hlevels _ _ rfl rfl
  obtain ⟨-, hlevels⟩ := hsecond _ _ rfl 1 [(1, 1)] htextScan
  obtain ⟨-, -, -, -, -, hsize⟩ := hlevels _ _ rfl rfl
  refine ⟨hslots (by decide), ?_⟩
  have hplaced : placements [dimOfBounds (1, 1)] oneText = [(0, .ofText longText)] := rfl
  have hstored : oneArray.encodedSizeFor (-1) .int = 58 := by decide +kernel
  refine (hsize (by decide) (fun _ => some (.text longText)) (fun p hp => ?_) (-1) .int rfl
    oneArray rfl).trans ?_
  · obtain rfl := List.mem_singleton.mp (hplaced ▸ hp)
    exact hvalue
  · rw [hstored]
    rfl

end Marshal

end StoredRoutine
