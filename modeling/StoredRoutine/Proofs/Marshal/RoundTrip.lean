import StoredRoutine.Marshal.ToRelational
import StoredRoutine.Proofs.Host.Definitions
import StoredRoutine.Proofs.Marshal.Shape

/-!
# `StoredRoutine.Proofs.Marshal.RoundTrip`: a value goes out and comes back

`WellTyped b d t m` says that `d` is a value of type `t` under the modifier `m` in the catalog of
`b`: its scalars are kept by the input of their types, its enum values are labels, its rows have the
catalog's columns, and its arrays have a shape that can be seen from outside (`ArrayFits`).

`toRelational_toScript` is the main result. Such a value has a script form, and the script form
converts back to exactly the value. The two directions follow the same recursion on different data:
out, the layout that the value carries, and back, the one in the catalog. So the statement is proved
for values, lists of elements and columns together, by induction on the typing.
-/

set_option autoImplicit false

namespace StoredRoutine

/-- The first entry is found under its own key. -/
theorem ScriptTable.find?_cons (key other : ScriptKey) (value : ScriptValue) (rest : ScriptTable) :
    ScriptTable.find? other ((key, value) :: rest) =
      if other = key then some value else ScriptTable.find? other rest := by
  unfold find?
  rw [List.lookup_cons]
  by_cases h : other = key
  · rw [beq_iff_eq.mpr h, if_pos h]
  · rw [beq_false_of_ne h, if_neg h]

/-- An entry that is set is found under its key, and no other key is affected. -/
theorem ScriptTable.find?_insert (key other : ScriptKey) (value : ScriptValue)
    (table : ScriptTable) :
    ScriptTable.find? other (table.insert key value) =
      if other = key then some value else ScriptTable.find? other table := by
  induction table with
  | nil => exact find?_cons key other value []
  | cons e rest ih =>
    obtain ⟨k, v⟩ := e
    unfold insert
    by_cases hk : key = k
    · rw [if_pos hk, find?_cons, find?_cons, ← hk]
      by_cases h : other = key
      · rw [if_pos h, if_pos h]
      · rw [if_neg h, if_neg h, if_neg h]
    · rw [if_neg hk]
      by_cases hbefore : key.before k = true
      · rw [if_pos hbefore, find?_cons]
      · rw [if_neg hbefore, find?_cons, ih, find?_cons]
        by_cases h : other = key
        · have hne : other ≠ k := fun heq => hk (h.symm.trans heq)
          rw [if_neg hne, if_pos h, if_pos h]
        · rw [if_neg h, if_neg h]

/-- The text of a text is the text. -/
theorem ScriptValue.text?_ofText (s : String) : (ScriptValue.ofText s).text? = some s := by
  show String.fromUTF8? s.toUTF8 = some s
  unfold String.fromUTF8?
  rw [String.toUTF8_eq_toByteArray, dif_pos s.isValidUTF8]
  rfl

namespace Marshal

open Resolving

/-! ### Well-typed values -/

/-- The values of a scalar type that come back from the script side: those of the right kind, and
for the types that go through text input under a modifier, those that the input keeps. -/
def Kept (typeMod : Int32) : Scalar → Datum → Prop
  | .bool, .bool _ => True
  | .int2, .int2 _ => True
  | .int4, .int4 _ => True
  | .int8, .int8 _ => True
  | .float8, .float8 _ => True
  | .text, .text _ => True
  | .bytea, .bytea _ => True
  | .numeric, .numeric s => Numeric.ofText s typeMod = .ok s
  | .varchar, .text s => Datum.varcharOfText s typeMod = .ok s
  | .bpchar, .text s => Datum.bpcharOfText s typeMod = .ok s
  | _, _ => False

/-- The stored length and alignment of elements, from the catalog. -/
def storage (catalog : Catalog.Lookup) (element : TypeId) : Outcome (Int16 × Alignment) :=
  match TypeCache.resolve catalog element with
  | .error f => .error f
  | .ok type =>
    match type.kind with
    | .domain base _ =>
      match TypeCache.resolve catalog base with
      | .error f => .error f
      | .ok type => .ok (type.len, type.align)
    | _ => .ok (type.len, type.align)

/-- Dimensions and elements of an array that keeps its shape as a nest of tables, and is not too
large. -/
structure ArrayFits (b : Border) (element : TypeId) (dims : List ArrayDim)
    (elements : List (Option Datum)) : Prop where
  nonempty : dims ≠ []
  maxDims : dims.length ≤ b.options.maxArrayDims
  extents : ∀ d ∈ dims, Extent d
  count : elements.length = volume dims
  edges : EdgesPresent dims elements
  slots : elements.length * slotBytes ≤ b.options.maxAllocSize
  size : ∀ len align, storage b.catalog element = .ok (len, align) →
    ArrayOf.encodedSizeFor ⟨element, dims, elements⟩ len align ≤ b.options.maxAllocSize

mutual

/-- A value of a type, under a type modifier. The type itself or the domain over it is a scalar
type, an enum, an array of scalars or enums of any dimensions, an array of rows of one dimension,
or a composite type. -/
inductive WellTyped (b : Border) : Datum → TypeId → Int32 → Prop
  | scalar {d : Datum} {t : TypeId} {m m' : Int32} {type : TypeDescriptor} {s : Scalar}
      (hresolve : Catalog.resolveDomain b.catalog t m = .ok (type, m'))
      (hkind : type.kind = .base) (hscalar : Scalar.ofId? type.id = some s) (hkept : Kept m' s d) :
      WellTyped b d t m
  | enum {label : String} {t : TypeId} {m m' : Int32} {type : TypeDescriptor}
      {labels : List String} (hresolve : Catalog.resolveDomain b.catalog t m = .ok (type, m'))
      (hkind : type.kind = .enum labels) (hlabel : label ∈ labels) :
      WellTyped b (.enum label) t m
  | empty {element t : TypeId} {m m' em : Int32} {type etype : TypeDescriptor}
      (hresolve : Catalog.resolveDomain b.catalog t m = .ok (type, m'))
      (hkind : type.kind = .array element)
      (helement : Catalog.resolveDomain b.catalog element (-1) = .ok (etype, em)) :
      WellTyped b (.array (ArrayOf.empty element)) t m
  | array {element t : TypeId} {m m' em : Int32} {type etype : TypeDescriptor}
      {dims : List ArrayDim} {elements : List (Option Datum)}
      (hresolve : Catalog.resolveDomain b.catalog t m = .ok (type, m'))
      (hkind : type.kind = .array element)
      (helement : Catalog.resolveDomain b.catalog element (-1) = .ok (etype, em))
      (hform : (etype.kind = .base ∨ ∃ labels, etype.kind = .enum labels) ∨
        (∃ layout, etype.kind = .composite layout) ∧ dims.length = 1)
      (hfits : ArrayFits b element dims elements) (helements : ElementsTyped b elements element) :
      WellTyped b (.array ⟨element, dims, elements⟩) t m
  | row {t : TypeId} {m m' : Int32} {type : TypeDescriptor} {layout : RowLayout}
      {values : List (Option Datum)}
      (hresolve : Catalog.resolveDomain b.catalog t m = .ok (type, m'))
      (hkind : type.kind = .composite layout)
      (hnames : (layout.attributes.map (·.name)).Nodup)
      (hcolumns : ColumnsTyped b layout.attributes values) :
      WellTyped b (.row ⟨layout, values⟩) t m

/-- Elements of a type, some of which may be NULL. -/
inductive ElementsTyped (b : Border) : List (Option Datum) → TypeId → Prop
  | nil {t : TypeId} : ElementsTyped b [] t
  | null {rest : List (Option Datum)} {t : TypeId} (hrest : ElementsTyped b rest t) :
      ElementsTyped b (none :: rest) t
  | value {d : Datum} {rest : List (Option Datum)} {t : TypeId} (hd : WellTyped b d t (-1))
      (hrest : ElementsTyped b rest t) : ElementsTyped b (some d :: rest) t

/-- One value for each column, or a NULL. -/
inductive ColumnsTyped (b : Border) : List Attribute → List (Option Datum) → Prop
  | nil : ColumnsTyped b [] []
  | null {a : Attribute} {attributes : List Attribute} {values : List (Option Datum)}
      (hrest : ColumnsTyped b attributes values) : ColumnsTyped b (a :: attributes) (none :: values)
  | value {a : Attribute} {d : Datum} {attributes : List Attribute} {values : List (Option Datum)}
      (hd : WellTyped b d a.typeId a.typeMod) (hrest : ColumnsTyped b attributes values) :
      ColumnsTyped b (a :: attributes) (some d :: values)

end

/-! ### One scalar -/

/-- The text of a script string made from a text. -/
theorem textOf_ofText (s : String) (type : TypeDescriptor) :
    textOf (.ofText s) type = .ok s := by
  have htext := ScriptValue.text?_ofText s
  unfold ScriptValue.ofText at htext ⊢
  have htext : String.fromUTF8? s.toUTF8 = some s := htext
  simp only [textOf, htext]

section ScalarBack

variable {s : Scalar} {type : TypeDescriptor} {m : Int32} {d : Datum} {v : ScriptValue}

/-- The script form of a value of a base type is that of its scalar. -/
theorem plainToScript_of_scalar {b : Border} (hkind : type.kind = .base)
    (hscalar : Scalar.ofId? type.id = some s) (hv : scalarToScript b (some s) d = .ok v) :
    plainToScript b type d = .ok v := by
  unfold plainToScript
  rw [hkind, hscalar]
  exact hv

/-- A script value is converted to a base type as to its scalar. -/
theorem plainToRelational_of_scalar (hkind : type.kind = .base)
    (hv : scalarToRelational v type m = .ok d) : plainToRelational v type m = .ok (some d) := by
  unfold plainToRelational
  rw [hkind]
  simp only [hv]
  rfl

/-- By way of its text a string is converted as the scalar reads it. -/
theorem viaText_ofText (hkind : type.kind = .base) (hscalar : Scalar.ofId? type.id = some s)
    (text : String) :
    viaText (.ofText text) type m = Datum.scalarOfText s type.name text m := by
  unfold viaText
  rw [textOf_ofText]
  show Datum.ofText type text m = _
  unfold Datum.ofText
  rw [hkind, hscalar]

/-- A scalar value has a script form that is no table and converts back to the value. -/
theorem scalar_back (b : Border) (hkind : type.kind = .base)
    (hscalar : Scalar.ofId? type.id = some s) (hkept : Kept m s d) :
    ∃ v, plainToScript b type d = .ok v ∧
      (v ≠ .nil ∧ (∀ entries, v ≠ .table entries) ∧ ∀ row, v ≠ .tuple row) ∧
      plainToRelational v type m = .ok (some d) := by
  have hout : ∀ v, scalarToScript b (some s) d = .ok v → plainToScript b type d = .ok v :=
    fun _ => plainToScript_of_scalar hkind hscalar
  have hback : ∀ v, scalarToRelational v type m = .ok d →
      plainToRelational v type m = .ok (some d) :=
    fun _ => plainToRelational_of_scalar hkind
  have hvia := fun text => viaText_ofText (m := m) hkind hscalar text
  -- what is kept of a pair of a scalar and a value of another kind is nothing
  cases s <;> cases d <;> simp only [Kept] at hkept
  case bool.bool v =>
    refine ⟨.bool v, hout _ rfl, by simp, hback _ ?_⟩
    simp only [scalarToRelational, hscalar]
  case bytea.bytea v =>
    refine ⟨.string v, hout _ rfl, by simp, hback _ ?_⟩
    simp only [scalarToRelational, hscalar]
  case int8.int8 v =>
    refine ⟨.int v, hout _ rfl, by simp, hback _ ?_⟩
    simp only [scalarToRelational, hscalar, toIntDatum, intDatum, Int64.ofInt_toInt]
  case int4.int4 v =>
    have hrange : -(2 ^ 31) ≤ v.toInt ∧ v.toInt < 2 ^ 31 := ⟨v.le_toInt, v.toInt_lt⟩
    refine ⟨.int v.toInt64, hout _ rfl, by simp, hback _ ?_⟩
    simp only [scalarToRelational, hscalar, toIntDatum, intDatum, Int32.toInt_toInt64]
    rw [if_pos hrange, Int32.ofInt_toInt]
  case int2.int2 v =>
    have hrange : -(2 ^ 15) ≤ v.toInt ∧ v.toInt < 2 ^ 15 := ⟨v.le_toInt, v.toInt_lt⟩
    refine ⟨.int v.toInt64, hout _ rfl, by simp, hback _ ?_⟩
    simp only [scalarToRelational, hscalar, toIntDatum, intDatum, Int16.toInt_toInt64]
    rw [if_pos hrange, Int16.ofInt_toInt]
  case text.text v =>
    refine ⟨.ofText v, hout _ rfl, by simp [ScriptValue.ofText], hback _ ?_⟩
    simp only [scalarToRelational, hscalar, textOf_ofText]
    rfl
  case float8.float8 v =>
    refine ⟨.number v, hout _ rfl, by simp, hback _ ?_⟩
    simp only [scalarToRelational, hscalar, toFloatDatum]
  case bpchar.text v =>
    refine ⟨.ofText v, hout _ rfl, by simp [ScriptValue.ofText], hback _ ?_⟩
    simp only [scalarToRelational, hscalar, hvia, Datum.scalarOfText, hkept]
    rfl
  case varchar.text v =>
    refine ⟨.ofText v, hout _ rfl, by simp [ScriptValue.ofText], hback _ ?_⟩
    simp only [scalarToRelational, hscalar, hvia, Datum.scalarOfText, hkept]
    rfl
  case numeric.numeric v =>
    refine ⟨.ofText v, hout _ rfl, by simp [ScriptValue.ofText], hback _ ?_⟩
    simp only [scalarToRelational, hscalar, hvia, Datum.scalarOfText, hkept]
    rfl

end ScalarBack

/-- A label has its own text, which converts back to it. -/
theorem enum_back (b : Border) {type : TypeDescriptor} {labels : List String} {label : String}
    (hkind : type.kind = .enum labels) (hlabel : label ∈ labels) (m : Int32) :
    plainToScript b type (.enum label) = .ok (.ofText label) ∧
      plainToRelational (.ofText label) type m = .ok (some (.enum label)) := by
  constructor
  · unfold plainToScript
    rw [hkind]
    rfl
  · have hvia : viaText (.ofText label) type m = .ok (.enum label) := by
      unfold viaText
      rw [textOf_ofText]
      show Datum.ofText type label m = _
      unfold Datum.ofText
      rw [hkind]
      simp only [List.contains_iff_mem.mpr hlabel, if_true]
    unfold plainToRelational
    rw [hkind]
    simp only [hvia]
    rfl

/-! ### What the conversions yield -/

variable {b : Border}

/-- A resolved type, as a step of a conversion. -/
theorem yields_resolved {t : TypeId} {m m' : Int32} {type : TypeDescriptor}
    (h : Catalog.resolveDomain b.catalog t m = .ok (type, m')) :
    Yields b.catalog (resolveDomain b.catalog t m) (.ok (type, m')) := by
  rw [← h]
  exact yields_resolveDomain t m

/-- A value that is neither an array nor a row goes out by its resolved type. -/
theorem yields_toScript_plain {d : Datum} {t : TypeId} {m m' : Int32} {type : TypeDescriptor}
    (hresolve : Catalog.resolveDomain b.catalog t m = .ok (type, m'))
    (harray : ∀ a, d ≠ .array a) (hrow : ∀ r, d ≠ .row r) :
    Yields b.catalog (toScript b d t) (plainToScript b type d) := by
  obtain ⟨m'', hresolve⟩ := Catalog.resolveDomain_typeMod hresolve (-1)
  cases d with
  | array a => exact absurd rfl (harray a)
  | row r => exact absurd rfl (hrow r)
  | _ =>
    unfold toScript
    exact (yields_resolved hresolve).bind (yields_liftExcept _)

/-- A script value that is no nil, table or row object comes back by its resolved type. -/
theorem yields_convert_plain {v : ScriptValue} {t : TypeId} {m m' : Int32} {type : TypeDescriptor}
    (hresolve : Catalog.resolveDomain b.catalog t m = .ok (type, m'))
    (hv : v ≠ .nil ∧ (∀ entries, v ≠ .table entries) ∧ ∀ row, v ≠ .tuple row)
    (ofTuple : RowValue → RowLayout → Resolving RowValue) :
    Yields b.catalog (convert b ofTuple v t m) (plainToRelational v type m') := by
  obtain ⟨hnil, htable, htuple⟩ := hv
  cases v with
  | nil => exact absurd rfl hnil
  | table entries => exact absurd rfl (htable entries)
  | tuple row => exact absurd rfl (htuple row)
  | _ =>
    unfold convert
    exact (yields_resolved hresolve).bind (yields_liftExcept _)

/-- Whether tables are elements is decided by the resolved element type. -/
theorem yields_tablesAreLeaves {element : TypeId} {em : Int32} {etype : TypeDescriptor}
    (helement : Catalog.resolveDomain b.catalog element (-1) = .ok (etype, em)) :
    Yields b.catalog (tablesAreLeaves b element)
      (.ok (etype.isRow || etype.id == Scalar.json.id)) :=
  (yields_resolved helement).bind (yields_pure _)

/-- The storage of elements is that of the catalog. -/
theorem yields_elementStorage (element : TypeId) :
    Yields b.catalog (elementStorage b element) (storage b.catalog element) := by
  have hfirst : Yields b.catalog (descriptor b.catalog element) _ := yields_descriptor element
  unfold elementStorage storage
  cases htype : TypeCache.resolve b.catalog element with
  | error f =>
    rw [htype] at hfirst
    exact hfirst.bind_error _
  | ok type =>
    rw [htype] at hfirst
    refine hfirst.bind ?_
    cases hkind : type.kind with
    | domain base baseMod =>
      have hbase : Yields b.catalog (descriptor b.catalog base) _ := yields_descriptor base
      simp only [hkind]
      cases hbtype : TypeCache.resolve b.catalog base with
      | error f =>
        rw [hbtype] at hbase
        exact hbase.bind_error _
      | ok btype =>
        rw [hbtype] at hbase
        exact hbase.bind (yields_pure _)
    | _ =>
      simp only [hkind]
      exact yields_pure _

/-- An element type that resolves has a storage. -/
theorem storage_ok {element : TypeId} {em : Int32} {etype : TypeDescriptor}
    (helement : Catalog.resolveDomain b.catalog element (-1) = .ok (etype, em)) :
    ∃ len align, storage b.catalog element = .ok (len, align) := by
  unfold Catalog.resolveDomain at helement
  unfold storage
  cases htype : TypeCache.resolve b.catalog element with
  | error f =>
    rw [htype] at helement
    cases helement
  | ok type =>
    rw [htype] at helement
    unfold Catalog.underlying maxDomainHops at helement
    cases hkind : type.kind with
    | domain base baseMod =>
      simp only [hkind] at helement ⊢
      cases hbase : TypeCache.resolve b.catalog base with
      | error f =>
        rw [hbase] at helement
        cases helement
      | ok next => exact ⟨_, _, rfl⟩
    | _ =>
      simp only [hkind]
      exact ⟨_, _, rfl⟩

/-! ### Arrays -/

/-- A product of positive lengths that stays under a ceiling does so at every step. -/
theorem foldl_volume {p : Nat → Prop} [DecidablePred p] (hp : ∀ i j, i ≤ j → p j → p i)
    {dims : List ArrayDim} (hdims : ∀ d ∈ dims, Extent d) {n : Nat} (h : p (n * volume dims)) :
    dims.foldl
      (fun acc d => acc.bind fun n => if p (n * d.len) then some (n * d.len) else none) (some n) =
      some (n * volume dims) := by
  induction dims generalizing n with
  | nil => simp [volume]
  | cons d rest ih =>
    rw [volume_cons, ← Nat.mul_assoc] at h ⊢
    have hrest : ∀ x ∈ rest, Extent x := fun x hx => hdims x (List.mem_cons_of_mem d hx)
    have hpos := volume_pos_of_extents hrest
    have hstep : p (n * d.len) := hp _ _ (Nat.le_mul_of_pos_right _ hpos) h
    rw [List.foldl_cons, Option.bind_some, if_pos hstep]
    exact ih hrest h

/-- The slots of an array that is not too large are counted. -/
theorem ArrayFits.slotCount {element : TypeId} {dims : List ArrayDim}
    {elements : List (Option Datum)} (h : ArrayFits b element dims elements) :
    slotCount? b.options.maxAllocSize dims = some elements.length := by
  have hslots := h.slots
  have hmax : 1 * volume dims ≤ b.options.maxAllocSize / slotBytes := by
    rw [Nat.one_mul, ← h.count, Nat.le_div_iff_mul_le (by decide)]
    exact hslots
  have hcount := foldl_volume (p := fun n => n ≤ b.options.maxAllocSize / slotBytes)
    (fun i j hij hj => Nat.le_trans hij hj) h.extents hmax
  rw [Nat.one_mul, ← h.count] at hcount
  exact hcount

/-- Dimensions that an array can have and as many elements as they describe make an array, if the
number of elements fits a word. -/
theorem ofDims_eq {α : Type} {element : TypeId} {dims : List ArrayDim} {elements : List (Option α)}
    (hne : dims ≠ []) (hdims : ∀ d ∈ dims, Extent d) (hcount : elements.length = volume dims)
    (hvolume : volume dims < 2 ^ 64) :
    ArrayOf.ofDims element dims elements = .ok ⟨element, dims, elements⟩ := by
  have hproduct := foldl_volume (p := fun n => n < 2 ^ 64) (n := 1)
    (fun i j hij hj => Nat.lt_of_le_of_lt hij hj) hdims ((Nat.one_mul _).symm ▸ hvolume)
  rw [Nat.one_mul, ← hcount] at hproduct
  have hlen : elements.length ≠ 0 := by
    have hpos := volume_pos_of_extents hdims
    omega
  have hupper : dims.any (fun d => decide (d.lower.toInt + d.len - 1 > 2 ^ 31 - 1)) = false := by
    rw [List.any_eq_false]
    intro d hd
    have hle := (hdims d hd).upper_le
    simp only [decide_eq_true_eq]
    omega
  unfold ArrayOf.ofDims
  rw [hproduct]
  simp only [hne, hlen, or_self, if_false, ne_eq, not_true_eq_false, hupper, Bool.false_eq_true]

/-- Dimensions and elements that fit make an array. -/
theorem ArrayFits.ofDims {element : TypeId} {dims : List ArrayDim}
    {elements : List (Option Datum)} (h : ArrayFits b element dims elements)
    (hmax : b.options.maxAllocSize < 2 ^ 64) :
    ArrayOf.ofDims element dims elements = .ok ⟨element, dims, elements⟩ := by
  have hslots := h.slots
  refine ofDims_eq h.nonempty h.extents h.count ?_
  rw [← h.count]
  exact Nat.lt_of_le_of_lt (Nat.le_trans (Nat.le_mul_of_pos_right _ (by decide)) hslots) hmax

/-- The slots of an array that fits make the array. -/
theorem ArrayFits.yields_arrayOfSlots {element : TypeId} {em : Int32} {etype : TypeDescriptor}
    {dims : List ArrayDim} {elements : List (Option Datum)}
    (h : ArrayFits b element dims elements) (hmax : b.options.maxAllocSize < 2 ^ 64)
    (helement : Catalog.resolveDomain b.catalog element (-1) = .ok (etype, em)) :
    Yields b.catalog (arrayOfSlots b element dims elements)
      (.ok (.array ⟨element, dims, elements⟩)) := by
  obtain ⟨len, align, hstorage⟩ := storage_ok helement
  have hsize := h.size len align hstorage
  have hread := yields_elementStorage (b := b) element
  rw [hstorage] at hread
  unfold arrayOfSlots
  rw [h.ofDims hmax]
  refine (yields_liftExcept _).bind (hread.bind ?_)
  simp only [if_neg (Nat.not_lt.mpr hsize)]
  exact yields_pure _

/-- A traversal that does not use the membership is a map. -/
theorem traverseMem_eq_mapM {β γ : Type} (l : List β) (f : β → Resolving γ) :
    traverseMem l (fun a _ => f a) = l.mapM f := by
  induction l with
  | nil => rfl
  | cons a rest ih =>
    rw [List.mapM_cons, ← ih]
    rfl

/-! ### There and back -/

/-- The value `v` converts back to `d`, and it is no table where `d` is a scalar or an enum. -/
structure Returns (b : Border) (t : TypeId) (m : Int32) (v : ScriptValue) (d : Datum) : Prop where
  back : ∀ ofTuple, Yields b.catalog (convert b ofTuple v t m) (.ok (some d))
  plain : ∀ type m', Catalog.resolveDomain b.catalog t m = .ok (type, m') →
    (type.kind = .base ∨ ∃ labels, type.kind = .enum labels) → ∀ entries, v ≠ .table entries

/-- What a table holds for a column: nothing for a NULL, and otherwise what converts back. -/
def Entered (b : Border) (table : ScriptTable) (a : Attribute) : Option Datum → Prop
  | none => ScriptTable.find? (.text a.name) table = none
  | some d => ∃ v, ScriptTable.find? (.text a.name) table = some v ∧
      ∀ ofTuple, Yields b.catalog (convert b ofTuple v a.typeId a.typeMod) (.ok (some d))

/-- The columns that were entered convert back to the row. -/
theorem yields_row {table : ScriptTable} {t : TypeId} {m m' : Int32} {type : TypeDescriptor}
    {layout : RowLayout} {values : List (Option Datum)}
    (hresolve : Catalog.resolveDomain b.catalog t m = .ok (type, m'))
    (hkind : type.kind = .composite layout)
    (hentered : List.Forall₂ (Entered b table) layout.attributes values)
    (ofTuple : RowValue → RowLayout → Resolving RowValue) :
    Yields b.catalog (convert b ofTuple (.table table) t m)
      (.ok (some (.row ⟨layout, values⟩))) := by
  unfold convert
  refine (yields_resolved hresolve).bind ?_
  simp only [hkind]
  -- column by column; a NULL has no entry
  refine Yields.bind (yields_mapM (hentered.imp ?_)) (yields_pure _)
  intro a value hvalue
  cases value with
  | none =>
    have hnone : ScriptTable.find? (.text a.name) table = none := hvalue
    split
    · rename_i v hfound
      rw [hnone] at hfound
      cases hfound
    · exact yields_pure _
  | some d =>
    obtain ⟨v, hv, hback⟩ := hvalue
    split
    · rename_i v' hfound
      rw [hv] at hfound
      obtain rfl := Option.some.inj hfound
      exact hback ofTuple
    · rename_i hfound
      rw [hv] at hfound
      cases hfound

/-- Whether an element is present can be seen on either side. -/
theorem edgesPresent_of_forall₂ {β γ : Type} {r : β → γ → Prop} {dims : List ArrayDim}
    {l : List (Option β)} {m : List (Option γ)} (h : List.Forall₂ (Option.Rel r) l m)
    (hedges : EdgesPresent dims m) : EdgesPresent dims l := by
  have hpresent : ∀ {i : Nat} {c : γ}, m[i]? = some (some c) → ∃ a, l[i]? = some (some a) := by
    clear hedges
    induction h with
    | nil => exact fun hc => nomatch hc
    | cons hbc _ ih =>
      intro i c hc
      cases i with
      | succ i => exact ih hc
      | zero =>
        obtain rfl := Option.some.inj hc
        cases hbc with
        | some _ => exact ⟨_, rfl⟩
  obtain ⟨⟨d, i, c, hd, hi, hmod⟩, ⟨d', i', c', hd', hi', hmod'⟩⟩ := hedges
  obtain ⟨a, ha⟩ := hpresent hi
  obtain ⟨a', ha'⟩ := hpresent hi'
  exact ⟨⟨d, i, a, hd, ha, hmod⟩, ⟨d', i', a', hd', ha', hmod'⟩⟩

/-- A member that is present on the left has a counterpart on the right. -/
theorem exists_rel_of_mem {β γ : Type} {r : β → γ → Prop} {l : List (Option β)}
    {m : List (Option γ)} (h : List.Forall₂ (Option.Rel r) l m) {a : β} (ha : some a ∈ l) :
    ∃ c, some c ∈ m ∧ r a c := by
  induction h with
  | nil => exact absurd ha List.not_mem_nil
  | cons hbc _ ih =>
    rcases List.mem_cons.mp ha with rfl | ha
    · cases hbc with
      | some hac => exact ⟨_, List.mem_cons_self, hac⟩
    · obtain ⟨c, hc, hac⟩ := ih ha
      exact ⟨c, List.mem_cons_of_mem _ hc, hac⟩

/-- A nest of values that convert back converts back to the array. -/
theorem yields_array (hmax : b.options.maxAllocSize < 2 ^ 64) {element t : TypeId}
    {m m' em : Int32} {type etype : TypeDescriptor} {dims : List ArrayDim}
    {elements : List (Option Datum)} {values : List (Option ScriptValue)}
    (hresolve : Catalog.resolveDomain b.catalog t m = .ok (type, m'))
    (hkind : type.kind = .array element)
    (helement : Catalog.resolveDomain b.catalog element (-1) = .ok (etype, em))
    (hform : ((etype.isRow || etype.id == Scalar.json.id) = false ∧
        (etype.kind = .base ∨ ∃ labels, etype.kind = .enum labels)) ∨
      etype.isRow = true ∧ dims.length = 1)
    (hfits : ArrayFits b element dims elements)
    (hreturns : List.Forall₂ (Option.Rel (Returns b element (-1))) values elements)
    (ofTuple : RowValue → RowLayout → Resolving RowValue) :
    Yields b.catalog (convert b ofTuple (.table (nest dims values)) t m)
      (.ok (some (.array ⟨element, dims, elements⟩))) := by
  have hlen : values.length = volume dims := hreturns.length_eq.trans hfits.count
  have hleaf : (etype.isRow || etype.id == Scalar.json.id) = true ∧ dims.length = 1 ∨
      (etype.isRow || etype.id == Scalar.json.id) = false ∧
        ∀ v, some v ∈ values → ∀ entries, v ≠ .table entries := by
    rcases hform with ⟨hleaves, hplain⟩ | ⟨hrow, hone⟩
    · refine Or.inr ⟨hleaves, fun v hv => ?_⟩
      obtain ⟨d, -, hreturn⟩ := exists_rel_of_mem hreturns hv
      exact hreturn.plain etype em helement hplain
    · exact Or.inl ⟨by rw [hrow, Bool.true_or], hone⟩
  have hscan := scan_nest hfits.nonempty hfits.extents hlen hleaf hfits.maxDims
    (edgesPresent_of_forall₂ hreturns hfits.edges)
  have hplaced : placements dims (nest dims values) = present 0 values :=
    placementsFrom_nest hfits.nonempty hfits.extents hlen 0
  have hempty : dims.isEmpty = false := by
    rw [List.isEmpty_eq_false_iff]
    exact hfits.nonempty
  unfold convert
  refine (yields_resolved hresolve).bind ?_
  simp only [hkind]
  refine (yields_tablesAreLeaves helement).bind ?_
  rw [hscan]
  refine (yields_liftExcept _).bind ?_
  simp only [hempty, Bool.false_eq_true, if_false, hfits.slotCount, traverseMem_eq_mapM, hplaced]
  -- each value that is present converts back to the element in its place
  have hback : List.Forall₂
      (fun p q => Yields b.catalog
        (do
          let d ← convert b ofTuple p.2 element (-1)
          return (p.1, d)) (.ok q))
      (present 0 values) ((present 0 elements).map fun p => (p.1, some p.2)) := by
    rw [List.forall₂_map_right_iff]
    refine (forall₂_present hreturns 0).imp ?_
    rintro p q ⟨hplace, hreturn⟩
    rw [← hplace]
    exact (hreturn.back ofTuple).bind (yields_pure _)
  refine (yields_mapM hback).bind ?_
  rw [scatter_present]
  exact (hfits.yields_arrayOfSlots hmax helement).bind (yields_pure _)

/-! ### The induction -/

/-- A type resolves to one type only. -/
theorem resolved_unique {t : TypeId} {m m₁ m₂ : Int32} {type₁ type₂ : TypeDescriptor}
    (h₁ : Catalog.resolveDomain b.catalog t m = .ok (type₁, m₁))
    (h₂ : Catalog.resolveDomain b.catalog t m = .ok (type₂, m₂)) : type₁ = type₂ ∧ m₁ = m₂ := by
  rw [h₁] at h₂
  exact Prod.mk.inj (Except.ok.inj h₂)

/-- A value of a base type is a scalar that is kept. -/
theorem WellTyped.kept {d : Datum} {t : TypeId} {m m' : Int32} {type : TypeDescriptor}
    (h : WellTyped b d t m) (hresolve : Catalog.resolveDomain b.catalog t m = .ok (type, m'))
    (hkind : type.kind = .base) : ∃ s, Scalar.ofId? type.id = some s ∧ Kept m' s d := by
  cases h with
  | scalar hresolve' _ hscalar hkept =>
    obtain ⟨rfl, rfl⟩ := resolved_unique hresolve hresolve'
    exact ⟨_, hscalar, hkept⟩
  | enum hresolve' hkind' _ | empty hresolve' hkind' _ | array hresolve' hkind' _ _ _ _
  | row hresolve' hkind' _ _ =>
    obtain ⟨rfl, -⟩ := resolved_unique hresolve hresolve'
    exact nomatch hkind.symm.trans hkind'

/-- Elements that are present are well typed. -/
theorem ElementsTyped.mem {elements : List (Option Datum)} {t : TypeId} {d : Datum}
    (h : ElementsTyped b elements t) (hd : some d ∈ elements) : WellTyped b d t (-1) := by
  induction elements with
  | nil => exact absurd hd List.not_mem_nil
  | cons e rest ih =>
    cases h with
    | null hrest =>
      rcases List.mem_cons.mp hd with heq | hd
      · exact nomatch heq
      · exact ih hrest hd
    | value he hrest =>
      rcases List.mem_cons.mp hd with heq | hd
      · obtain rfl := Option.some.inj heq
        exact he
      · exact ih hrest hd

/-- The value goes out, and what it becomes converts back. -/
def RoundTrips (b : Border) (d : Datum) (t : TypeId) (m : Int32) : Prop :=
  ∃ v, Yields b.catalog (toScript b d t) (.ok v) ∧ Returns b t m v d

/-- The columns are entered into a table without entries of their names, no other entry is touched,
and what is entered converts back. -/
def ColumnsRoundTrip (b : Border) (attributes : List Attribute) (values : List (Option Datum)) :
    Prop :=
  (attributes.map (·.name)).Nodup → ∀ table : ScriptTable,
    (∀ a ∈ attributes, ScriptTable.find? (.text a.name) table = none) →
    ∃ table', Yields b.catalog (columnsToScript b attributes values table) (.ok table') ∧
      List.Forall₂ (Entered b table') attributes values ∧
      ∀ name, name ∉ attributes.map (·.name) →
        ScriptTable.find? (.text name) table' = ScriptTable.find? (.text name) table

/-- A NULL enters nothing. -/
theorem columnsRoundTrip_null {a : Attribute} {attributes : List Attribute}
    {values : List (Option Datum)} (hrest : ColumnsRoundTrip b attributes values) :
    ColumnsRoundTrip b (a :: attributes) (none :: values) := by
  intro hnames table hfree
  rw [List.map_cons, List.nodup_cons] at hnames
  obtain ⟨table', hyields, hentered, hother⟩ :=
    hrest hnames.2 table fun x hx => hfree x (List.mem_cons_of_mem a hx)
  refine ⟨table', ?_, List.Forall₂.cons ?_ hentered, ?_⟩
  · unfold columnsToScript
    exact hyields
  · show ScriptTable.find? (.text a.name) table' = none
    rw [hother a.name hnames.1]
    exact hfree a List.mem_cons_self
  · intro name hname
    rw [List.map_cons, List.mem_cons, not_or] at hname
    exact hother name hname.2

/-- A value enters its script form under the name of its column. -/
theorem columnsRoundTrip_value {a : Attribute} {d : Datum} {attributes : List Attribute}
    {values : List (Option Datum)} (hd : RoundTrips b d a.typeId a.typeMod)
    (hrest : ColumnsRoundTrip b attributes values) :
    ColumnsRoundTrip b (a :: attributes) (some d :: values) := by
  intro hnames table hfree
  rw [List.map_cons, List.nodup_cons] at hnames
  obtain ⟨v, hv, hreturns⟩ := hd
  have hfree' : ∀ x ∈ attributes,
      ScriptTable.find? (.text x.name) (table.insert (.text a.name) v) = none := by
    intro x hx
    have hne : ScriptKey.text x.name ≠ .text a.name := by
      intro heq
      rw [ScriptKey.text.injEq] at heq
      exact hnames.1 (heq ▸ List.mem_map_of_mem hx)
    rw [ScriptTable.find?_insert, if_neg hne]
    exact hfree x (List.mem_cons_of_mem a hx)
  obtain ⟨table', hyields, hentered, hother⟩ := hrest hnames.2 _ hfree'
  refine ⟨table', ?_, List.Forall₂.cons ⟨v, ?_, hreturns.back⟩ hentered, ?_⟩
  · unfold columnsToScript
    exact hv.bind hyields
  · rw [hother a.name hnames.1, ScriptTable.find?_insert, if_pos rfl]
  · intro name hname
    rw [List.map_cons, List.mem_cons, not_or] at hname
    have hne : ScriptKey.text name ≠ .text a.name := by
      rw [ne_eq, ScriptKey.text.injEq]
      exact hname.1
    rw [hother name hname.2, ScriptTable.find?_insert, if_neg hne]

/-- A scalar goes out and comes back. -/
theorem roundTrips_scalar {d : Datum} {t : TypeId} {m m' : Int32} {type : TypeDescriptor}
    {s : Scalar} (hresolve : Catalog.resolveDomain b.catalog t m = .ok (type, m'))
    (hkind : type.kind = .base) (hscalar : Scalar.ofId? type.id = some s) (hkept : Kept m' s d) :
    RoundTrips b d t m := by
  obtain ⟨v, hout, hv, hback⟩ := scalar_back b hkind hscalar hkept
  have harray : ∀ a, d ≠ .array a := by
    rintro a rfl
    cases s <;> exact hkept
  have hrow : ∀ r, d ≠ .row r := by
    rintro r rfl
    cases s <;> exact hkept
  have hscript := yields_toScript_plain hresolve harray hrow
  rw [hout] at hscript
  refine ⟨v, hscript, fun ofTuple => ?_, fun _ _ _ _ => hv.2.1⟩
  have hconvert := yields_convert_plain hresolve hv ofTuple
  rw [hback] at hconvert
  exact hconvert

/-- A label goes out and comes back. -/
theorem roundTrips_enum {label : String} {t : TypeId} {m m' : Int32} {type : TypeDescriptor}
    {labels : List String} (hresolve : Catalog.resolveDomain b.catalog t m = .ok (type, m'))
    (hkind : type.kind = .enum labels) (hlabel : label ∈ labels) :
    RoundTrips b (.enum label) t m := by
  obtain ⟨hout, hback⟩ := enum_back b hkind hlabel m'
  have hscript := yields_toScript_plain hresolve (d := .enum label) (by simp) (by simp)
  rw [hout] at hscript
  refine ⟨.ofText label, hscript, fun ofTuple => ?_, fun _ _ _ _ => by simp [ScriptValue.ofText]⟩
  have hconvert := yields_convert_plain hresolve (v := .ofText label)
    (by simp [ScriptValue.ofText]) ofTuple
  rw [hback] at hconvert
  exact hconvert

/-- A type that resolves to something else than a scalar or an enum asks nothing of its values. -/
theorem returns_of_kind {t : TypeId} {m m' : Int32} {type : TypeDescriptor} {v : ScriptValue}
    {d : Datum} (hresolve : Catalog.resolveDomain b.catalog t m = .ok (type, m'))
    (hbase : type.kind ≠ .base) (henum : ∀ labels, type.kind ≠ .enum labels)
    (hback : ∀ ofTuple, Yields b.catalog (convert b ofTuple v t m) (.ok (some d))) :
    Returns b t m v d where
  back := hback
  plain := by
    intro type' m'' hresolve' hplain
    obtain ⟨rfl, -⟩ := resolved_unique hresolve hresolve'
    rcases hplain with hkind | ⟨labels, hkind⟩
    · exact absurd hkind hbase
    · exact absurd hkind (henum labels)

/-- The empty array goes out as the empty table and comes back. -/
theorem roundTrips_empty {element t : TypeId} {m m' em : Int32} {type etype : TypeDescriptor}
    (hresolve : Catalog.resolveDomain b.catalog t m = .ok (type, m'))
    (hkind : type.kind = .array element)
    (helement : Catalog.resolveDomain b.catalog element (-1) = .ok (etype, em)) :
    RoundTrips b (.array (ArrayOf.empty element)) t m := by
  obtain ⟨m'', hresolve'⟩ := Catalog.resolveDomain_typeMod hresolve (-1)
  refine ⟨.table [], ?_, returns_of_kind hresolve (by simp [hkind]) (by simp [hkind]) ?_⟩
  · unfold ArrayOf.empty toScript
    refine (yields_resolved hresolve').bind ?_
    simp only [hkind]
    exact yields_pure _
  · intro ofTuple
    unfold convert
    refine (yields_resolved hresolve).bind ?_
    simp only [hkind]
    refine (yields_tablesAreLeaves helement).bind ?_
    have hscan : ∀ leafTables, scan b.options.maxArrayDims leafTables [] = .ok [] := by
      intro leafTables
      simp [scan, scanEntries, Except.map]
    rw [hscan]
    exact (yields_liftExcept _).bind (yields_pure _)

/-- An array goes out as a nest of tables and comes back. -/
theorem roundTrips_array (hmax : b.options.maxAllocSize < 2 ^ 64) {element t : TypeId}
    {m m' em : Int32} {type etype : TypeDescriptor} {dims : List ArrayDim}
    {elements : List (Option Datum)}
    (hresolve : Catalog.resolveDomain b.catalog t m = .ok (type, m'))
    (hkind : type.kind = .array element)
    (helement : Catalog.resolveDomain b.catalog element (-1) = .ok (etype, em))
    (hform : ((etype.isRow || etype.id == Scalar.json.id) = false ∧
        (etype.kind = .base ∨ ∃ labels, etype.kind = .enum labels)) ∨
      etype.isRow = true ∧ dims.length = 1)
    (hfits : ArrayFits b element dims elements)
    (helements : ∃ values, Yields b.catalog (elementsToScript b elements element) (.ok values) ∧
      List.Forall₂ (Option.Rel (Returns b element (-1))) values elements) :
    RoundTrips b (.array ⟨element, dims, elements⟩) t m := by
  obtain ⟨m'', hresolve'⟩ := Catalog.resolveDomain_typeMod hresolve (-1)
  obtain ⟨values, hvalues, hreturns⟩ := helements
  have hempty : elements.isEmpty = false := by
    obtain ⟨-, i, d, -, hi, -⟩ := hfits.edges.first
    cases elements with
    | nil => exact nomatch hi
    | cons _ _ => rfl
  refine ⟨.table (nest dims values), ?_,
    returns_of_kind hresolve (by simp [hkind]) (by simp [hkind]) fun ofTuple =>
      yields_array hmax hresolve hkind helement hform hfits hreturns ofTuple⟩
  unfold toScript
  refine (yields_resolved hresolve').bind ?_
  simp only [hkind, hempty, Bool.false_eq_true, if_false]
  exact hvalues.bind (yields_pure _)

/-- A row goes out as a table and comes back. -/
theorem roundTrips_row {t : TypeId} {m m' : Int32} {type : TypeDescriptor} {layout : RowLayout}
    {values : List (Option Datum)}
    (hresolve : Catalog.resolveDomain b.catalog t m = .ok (type, m'))
    (hkind : type.kind = .composite layout) (hnames : (layout.attributes.map (·.name)).Nodup)
    (hcolumns : ColumnsRoundTrip b layout.attributes values) :
    RoundTrips b (.row ⟨layout, values⟩) t m := by
  obtain ⟨m'', hresolve'⟩ := Catalog.resolveDomain_typeMod hresolve (-1)
  obtain ⟨table, htable, hentered, -⟩ := hcolumns hnames [] fun _ _ => rfl
  have hrow : type.isRow = true := by
    unfold TypeDescriptor.isRow
    rw [hkind]
  refine ⟨.table table, ?_,
    returns_of_kind hresolve (by simp [hkind]) (by simp [hkind]) fun ofTuple =>
      yields_row hresolve hkind hentered ofTuple⟩
  unfold toScript
  refine (yields_resolved hresolve').bind ?_
  simp only [hrow, if_true]
  exact htable.bind (yields_pure _)

/-- Tables are no elements of an array whose elements are scalars that are kept. -/
theorem leafTables_base {etype : TypeDescriptor} {m : Int32} {s : Scalar} {d : Datum}
    (hkind : etype.kind = .base) (hscalar : Scalar.ofId? etype.id = some s) (hkept : Kept m s d) :
    (etype.isRow || etype.id == Scalar.json.id) = false := by
  have hrecord : etype.id ≠ TypeId.record := by
    intro heq
    rw [heq] at hscalar
    exact nomatch hscalar
  have hjson : etype.id ≠ Scalar.json.id := by
    intro heq
    rw [heq, Scalar.ofId?_id] at hscalar
    obtain rfl := Option.some.inj hscalar
    exact hkept
  unfold TypeDescriptor.isRow
  simp [hkind, hrecord, hjson]

/-- No enum has the identifier of the types whose tables count as elements. -/
def EnumsApart (b : Border) : Prop :=
  ∀ t m type m' labels, Catalog.resolveDomain b.catalog t m = .ok (type, m') →
    type.kind = .enum labels → type.id ≠ TypeId.record ∧ type.id ≠ Scalar.json.id

mutual

/-- Values go out and come back. -/
theorem WellTyped.roundTrips (hmax : b.options.maxAllocSize < 2 ^ 64) (henum : EnumsApart b)
    {d : Datum} {t : TypeId} {m : Int32} : WellTyped b d t m → RoundTrips b d t m
  | .scalar hresolve hkind hscalar hkept => roundTrips_scalar hresolve hkind hscalar hkept
  | .enum hresolve hkind hlabel => roundTrips_enum hresolve hkind hlabel
  | .empty hresolve hkind helement => roundTrips_empty hresolve hkind helement
  | .array hresolve hkind helement hform hfits helements => by
    refine roundTrips_array hmax hresolve hkind helement ?_ hfits (helements.roundTrip hmax henum)
    rcases hform with (hbase | ⟨labels, hlabels⟩) | ⟨⟨layout, hlayout⟩, hone⟩
    · obtain ⟨-, i, d, -, hi, -⟩ := hfits.edges.first
      obtain ⟨s, hscalar, hkept⟩ :=
        (helements.mem (List.mem_of_getElem? hi)).kept helement hbase
      exact Or.inl ⟨leafTables_base hbase hscalar hkept, Or.inl hbase⟩
    · obtain ⟨hrecord, hjson⟩ := henum _ _ _ _ labels helement hlabels
      refine Or.inl ⟨?_, Or.inr ⟨labels, hlabels⟩⟩
      unfold TypeDescriptor.isRow
      simp [hlabels, hrecord, hjson]
    · refine Or.inr ⟨?_, hone⟩
      unfold TypeDescriptor.isRow
      rw [hlayout]
  | .row hresolve hkind hnames hcolumns =>
    roundTrips_row hresolve hkind hnames (hcolumns.roundTrip hmax henum)

/-- Lists of elements go out and come back, element by element. -/
theorem ElementsTyped.roundTrip (hmax : b.options.maxAllocSize < 2 ^ 64) (henum : EnumsApart b)
    {elements : List (Option Datum)} {t : TypeId} : ElementsTyped b elements t →
      ∃ values, Yields b.catalog (elementsToScript b elements t) (.ok values) ∧
        List.Forall₂ (Option.Rel (Returns b t (-1))) values elements
  | .nil => by
    refine ⟨[], ?_, .nil⟩
    unfold elementsToScript
    exact yields_pure _
  | .null hrest => by
    obtain ⟨values, hvalues, hreturns⟩ := hrest.roundTrip hmax henum
    refine ⟨none :: values, ?_, .cons .none hreturns⟩
    unfold elementsToScript
    exact hvalues.bind (yields_pure _)
  | .value hd hrest => by
    obtain ⟨values, hvalues, hreturns⟩ := hrest.roundTrip hmax henum
    obtain ⟨v, hv, hreturn⟩ := hd.roundTrips hmax henum
    refine ⟨some v :: values, ?_, .cons (.some hreturn) hreturns⟩
    unfold elementsToScript
    exact hv.bind (hvalues.bind (yields_pure _))

/-- The columns of a row go out and come back. -/
theorem ColumnsTyped.roundTrip (hmax : b.options.maxAllocSize < 2 ^ 64) (henum : EnumsApart b)
    {attributes : List Attribute} {values : List (Option Datum)} :
    ColumnsTyped b attributes values → ColumnsRoundTrip b attributes values
  | .nil => by
    intro _ table _
    refine ⟨table, ?_, .nil, fun _ _ => rfl⟩
    unfold columnsToScript
    exact yields_pure _
  | .null hrest => columnsRoundTrip_null (hrest.roundTrip hmax henum)
  | .value hd hrest =>
    columnsRoundTrip_value (hd.roundTrips hmax henum) (hrest.roundTrip hmax henum)

end

/-- In the catalog of a host, every well-typed value has a script form, and at its type and without
a modifier this script form converts back to exactly the value. Both hold whatever descriptors the
cache has kept, as long as they are those of the catalog. The ceiling for sizes is a word of
sixty-four bits. -/
theorem toRelational_toScript {h : Host} (hdefined : h.Defined) (b : Border)
    (hcatalog : b.catalog = h.catalog) (hmax : b.options.maxAllocSize < 2 ^ 64) {d : Datum}
    {t : TypeId} (hd : WellTyped b d t (-1)) (c : TypeCache) (hc : c.Coherent b.catalog) :
    ∃ v c' c'', toScript b d t c = (.ok v, c') ∧
      toRelational b v t (-1) c' = (.ok (some d), c'') := by
  have henum : EnumsApart b := by
    intro t m type m' labels hresolve hkind
    obtain ⟨⟨id, hid⟩, -⟩ := Catalog.resolveDomain_ok hresolve
    rw [hcatalog] at hid
    have hle := hdefined.enum_id hid hkind
    constructor
    · intro heq
      rw [heq] at hle
      exact absurd hle (by decide)
    · intro heq
      rw [heq] at hle
      exact absurd hle (by decide)
  obtain ⟨v, hout, hreturns⟩ := hd.roundTrips hmax henum
  obtain ⟨c', hscript, hc'⟩ := hout c hc
  obtain ⟨c'', hback, -⟩ := hreturns.back (retype b) c' hc'
  exact ⟨v, c', c'', hscript, hback⟩

/-- A catalog with an enum, a domain of texts of at most five characters, rows that have a matrix of
integers, and arrays of such rows. -/
def gridHost : Host :=
  ((((Host.new.defineEnum "mood" ["sad", "ok"]).2.defineDomain "word" Scalar.varchar.id
    (Datum.charTypeMod 5)).2.defineComposite "item"
      [⟨"mood", 16384, -1⟩, ⟨"word", 16385, -1⟩, ⟨"grid", 1007, -1⟩]).2.defineArray 16386).2

/-- The conversions over this catalog, with the default options. -/
def gridBorder : Border :=
  { catalog := gridHost.catalog, hasPortal := fun _ => false, options := {} }

/-- A matrix with two NULLs. -/
def grid : Datum :=
  .array ⟨Scalar.int4.id, [⟨2, 1⟩, ⟨2, -1⟩], [some (.int4 1), none, none, some (.int4 4)]⟩

/-- The columns of a row. -/
def itemLayout : RowLayout :=
  ⟨16386, [⟨"mood", 16384, -1⟩, ⟨"word", 16385, -1⟩, ⟨"grid", 1007, -1⟩]⟩

/-- An array of rows from subscript 0, with a NULL between a full and an empty row. -/
def gridItems : Datum :=
  .array ⟨16386, [⟨3, 0⟩],
    [some (.row ⟨itemLayout, [some (.enum "ok"), some (.text "yes"), some grid]⟩), none,
      some (.row ⟨itemLayout, [none, none, none]⟩)]⟩

/-- The matrix is well typed. -/
theorem wellTyped_grid : WellTyped gridBorder grid 1007 (-1) := by
  have hfits : ArrayFits gridBorder Scalar.int4.id [⟨2, 1⟩, ⟨2, -1⟩]
      [some (.int4 1), none, none, some (.int4 4)] := by
    refine ⟨by simp, by decide, ?_, rfl, ?_, by decide, ?_⟩
    · intro d hd
      simp only [List.mem_cons, List.not_mem_nil, or_false] at hd
      rcases hd with rfl | rfl <;> exact ⟨by decide, by decide⟩
    · exact ⟨⟨⟨2, -1⟩, 0, .int4 1, rfl, rfl, rfl⟩, ⟨⟨2, -1⟩, 3, .int4 4, rfl, rfl, rfl⟩⟩
    · intro len align hstorage
      have hint4 : storage gridBorder.catalog Scalar.int4.id = .ok (4, .int) := rfl
      rw [hint4] at hstorage
      obtain ⟨rfl, rfl⟩ := Prod.mk.inj (Except.ok.inj hstorage)
      decide
  have hone : ∀ n : Int32, WellTyped gridBorder (.int4 n) Scalar.int4.id (-1) := fun n =>
    .scalar (s := .int4) rfl rfl rfl trivial
  unfold grid
  exact .array rfl rfl rfl (Or.inl (Or.inl rfl)) hfits
    (.value (hone 1) (.null (.null (.value (hone 4) .nil))))

/-- The array of rows is well typed. -/
theorem wellTyped_gridItems : WellTyped gridBorder gridItems 16387 (-1) := by
  have hfits : ArrayFits gridBorder 16386 [⟨3, 0⟩]
      [some (.row ⟨itemLayout, [some (.enum "ok"), some (.text "yes"), some grid]⟩), none,
        some (.row ⟨itemLayout, [none, none, none]⟩)] := by
    refine ⟨by simp, by decide, ?_, rfl, ?_, by decide, ?_⟩
    · intro d hd
      obtain rfl := List.mem_singleton.mp hd
      exact ⟨by decide, by decide⟩
    · exact ⟨⟨⟨3, 0⟩, 0, _, rfl, rfl, rfl⟩, ⟨⟨3, 0⟩, 2, _, rfl, rfl, rfl⟩⟩
    · intro len align hstorage
      have hitem : storage gridBorder.catalog 16386 = .ok (-1, .double) := rfl
      rw [hitem] at hstorage
      obtain ⟨rfl, rfl⟩ := Prod.mk.inj (Except.ok.inj hstorage)
      decide
  have hnames : (itemLayout.attributes.map (·.name)).Nodup := by decide
  have hfull : ColumnsTyped gridBorder itemLayout.attributes
      [some (.enum "ok"), some (.text "yes"), some grid] :=
    .value (.enum rfl rfl (by decide)) (.value (.scalar (s := .varchar) rfl rfl rfl rfl)
      (.value wellTyped_grid .nil))
  have hempty : ColumnsTyped gridBorder itemLayout.attributes [none, none, none] :=
    .null (.null (.null .nil))
  unfold gridItems
  exact .array rfl rfl rfl (Or.inr ⟨⟨itemLayout, rfl⟩, rfl⟩) hfits
    (.value (.row rfl rfl hnames hfull) (.null (.value (.row rfl rfl hnames hempty) .nil)))

/-- The array of rows goes out and comes back. -/
theorem toRelational_toScript_gridItems :
    ∃ v c' c'', toScript gridBorder gridItems 16387 {} = (.ok v, c') ∧
      toRelational gridBorder v 16387 (-1) c' = (.ok (some gridItems), c'') := by
  have hdefined : gridHost.Defined :=
    .array (.composite (.domain (.enum .new (by decide) _ _) (by decide) _ _ _) (by decide) _ _)
      (by decide) _
  exact toRelational_toScript hdefined gridBorder rfl (by decide) wellTyped_gridItems {}
    (TypeCache.coherent_empty _)

end Marshal

end StoredRoutine
