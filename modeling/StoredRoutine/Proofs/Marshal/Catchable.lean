import StoredRoutine.Marshal.ToRelational
import StoredRoutine.Proofs.Catalog.Resolution

/-!
# `StoredRoutine.Proofs.Marshal.Catchable`: conversions do not fail fatally

A fatal failure stops the engine for good, and no protected call catches it. No conversion fails
in that way, whatever is converted, in either direction (`catchable_toRelational`,
`catchable_toRow`, `catchable_optionToScript`). The catalog has to be one whose lookups do not
fail fatally; those of a host do not fail at all.

`Catchable` speaks of the failure of a computation, if it has one. A computation in steps has the
property if each of its steps has it, so there is one lemma for each function that may fail.
-/

set_option autoImplicit false

namespace StoredRoutine

/-! ### Outcomes -/

section

variable {α β : Type}

/-- A failure in this place can be caught. -/
def Outcome.Catchable (x : Outcome α) : Prop := ∀ f, x = .error f → f.isFatal = false

open Outcome (Catchable)

theorem catchable_ok (a : α) : Catchable (.ok a) := by
  intro f hf
  cases hf

theorem catchable_error {f : Failure} (hf : f.isFatal = false) :
    Catchable (.error f : Outcome α) := by
  intro g hg
  cases hg
  exact hf

theorem Outcome.Catchable.bind {x : Outcome α} {k : α → Outcome β} (hx : x.Catchable)
    (hk : ∀ a, x = .ok a → (k a).Catchable) : Catchable (x >>= k) := by
  cases x with
  | error f => exact catchable_error (hx f rfl)
  | ok a => exact hk a rfl

theorem Outcome.Catchable.map {x : Outcome α} (hx : x.Catchable) (g : α → β) :
    Catchable (x.map g) := by
  cases x with
  | error f => exact catchable_error (hx f rfl)
  | ok a => exact catchable_ok _

/-- The same for a computation that uses the type cache. -/
def Resolving.Catchable (x : Resolving α) : Prop := ∀ c, Outcome.Catchable (x c).1

theorem Resolving.catchable_pure (a : α) : Resolving.Catchable (pure a) := fun _ => catchable_ok a

theorem Resolving.catchable_throw {f : Failure} (hf : f.isFatal = false) :
    Resolving.Catchable (throw f : Resolving α) := fun _ => catchable_error hf

theorem Resolving.catchable_liftExcept {x : Outcome α} (hx : x.Catchable) :
    Resolving.Catchable (liftExcept x) := by
  intro c
  cases x with
  | error f => exact hx
  | ok a => exact catchable_ok a

theorem Resolving.Catchable.bind {x : Resolving α} {k : α → Resolving β} (hx : x.Catchable)
    (hk : ∀ a, (k a).Catchable) : Resolving.Catchable (x >>= k) := by
  intro c
  have hxc : Outcome.Catchable (x c).1 := hx c
  rw [run_bind]
  generalize x c = done at hxc ⊢
  obtain ⟨r, c'⟩ := done
  cases r with
  | error f => exact catchable_error (hxc f rfl)
  | ok a => exact hk a c'

theorem Resolving.catchable_mapM {f : α → Resolving β} (hf : ∀ a, (f a).Catchable) (l : List α) :
    Resolving.Catchable (l.mapM f) := by
  induction l with
  | nil => exact catchable_pure _
  | cons a rest ih =>
    rw [List.mapM_cons]
    exact (hf a).bind fun b => ih.bind fun bs => catchable_pure _

theorem Resolving.catchable_traverseMem {l : List α} {f : (a : α) → a ∈ l → Resolving β}
    (hf : ∀ a h, (f a h).Catchable) : Resolving.Catchable (Marshal.traverseMem l f) := by
  induction l with
  | nil => exact catchable_pure _
  | cons a rest ih =>
    unfold Marshal.traverseMem
    exact (hf a _).bind fun b => (ih fun y h => hf y _).bind fun bs => catchable_pure _

end

open Outcome (Catchable)

/-! ### The catalog -/

namespace Catalog

/-- The lookups of a catalog do not fail fatally. -/
def Lookup.Catchable (catalog : Lookup) : Prop := ∀ id, Outcome.Catchable (catalog id)

theorem Entry.catchable_describe (e : Entry) : Catchable e.describe := by
  refine Outcome.Catchable.map ?_ _
  unfold Entry.kind
  cases e.typeClass with
  | base => simp only; split <;> exact catchable_ok _
  | domain =>
    simp only
    split
    · exact catchable_ok _
    · exact catchable_error rfl
  | enum => exact catchable_ok _
  | composite => exact catchable_ok _
  | pseudo => exact catchable_ok _

end Catalog

theorem TypeDescriptor.catchable_checkArgument (d : TypeDescriptor) :
    Catchable d.checkArgument := by
  unfold checkArgument
  split
  · exact catchable_error rfl
  · exact catchable_ok _

theorem TypeDescriptor.catchable_checkResult (d : TypeDescriptor) : Catchable d.checkResult := by
  unfold checkResult
  split
  · exact catchable_error rfl
  · exact catchable_ok _

namespace Resolving

variable {catalog : Catalog.Lookup}

theorem catchable_descriptor (hcat : catalog.Catchable) (id : TypeId) :
    (descriptor catalog id).Catchable := by
  intro c
  have hresolve : Outcome.Catchable (TypeCache.resolve catalog id) := by
    have hid := hcat id
    unfold TypeCache.resolve
    split
    next f heq => exact catchable_error (hid f heq)
    · exact catchable_error rfl
    · exact Catalog.Entry.catchable_describe _
  show Outcome.Catchable (TypeCache.get catalog id c).1
  unfold TypeCache.get
  simp only
  split
  · exact catchable_ok _
  · split
    next f heq => exact catchable_error (hresolve f heq)
    · exact catchable_ok _

theorem catchable_resolveDomain (hcat : catalog.Catchable) (id : TypeId) (typeMod : Int32) :
    (resolveDomain catalog id typeMod).Catchable := by
  have hunderlying : ∀ hops d typeMod, (underlying catalog id hops d typeMod).Catchable := by
    intro hops
    induction hops with
    | zero =>
      intro d typeMod
      unfold underlying
      split
      · exact catchable_throw rfl
      · exact catchable_pure _
    | succ hops ih =>
      intro d typeMod
      unfold underlying
      split
      · exact (catchable_descriptor hcat _).bind fun next => ih next _
      · exact catchable_pure _
  exact (catchable_descriptor hcat id).bind fun d => hunderlying _ d typeMod

end Resolving

/-! ### Texts of scalars -/

theorem Numeric.catchable_ofText (text : String) (typeMod : Int32) :
    Catchable (Numeric.ofText text typeMod) := by
  unfold Numeric.ofText
  simp only
  split
  · exact catchable_ok _
  · split
    · exact catchable_error rfl
    · split
      · exact catchable_error rfl
      · split
        · exact catchable_error rfl
        · split
          · exact catchable_ok _
          · split
            · exact catchable_error rfl
            · exact catchable_ok _

namespace Datum

theorem catchable_varcharOfText (text : String) (typeMod : Int32) :
    Catchable (varcharOfText text typeMod) := by
  unfold varcharOfText
  split
  · exact catchable_ok _
  · split
    · exact catchable_ok _
    · exact catchable_error rfl

theorem catchable_bpcharOfText (text : String) (typeMod : Int32) :
    Catchable (bpcharOfText text typeMod) := by
  unfold bpcharOfText
  split
  · exact catchable_ok _
  · split
    · exact catchable_ok _
    · exact catchable_error rfl

theorem catchable_orFail {α : Type} {f : Failure} (hf : f.isFatal = false) (x : Option α) :
    Catchable (orFail f x) := by
  cases x with
  | none => exact catchable_error hf
  | some a => exact catchable_ok a

theorem catchable_scalarOfText (s : Scalar) (name text : String) (typeMod : Int32) :
    Catchable (scalarOfText s name text typeMod) := by
  cases s with
  | numeric =>
    simp only [scalarOfText]
    exact (Numeric.catchable_ofText text typeMod).map _
  | text => exact catchable_ok _
  | varchar =>
    simp only [scalarOfText]
    exact (catchable_varcharOfText text typeMod).map _
  | bpchar =>
    simp only [scalarOfText]
    exact (catchable_bpcharOfText text typeMod).map _
  | json =>
    unfold scalarOfText
    simp only
    split
    · exact catchable_ok _
    · exact catchable_error rfl
  | refcursor => exact catchable_ok _
  | _ =>
    simp only [scalarOfText]
    exact catchable_orFail rfl _

theorem catchable_ofText (d : TypeDescriptor) (text : String) (typeMod : Int32) :
    Catchable (ofText d text typeMod) := by
  unfold ofText
  split
  · split
    · exact catchable_ok _
    · exact catchable_error rfl
  · split
    · exact catchable_scalarOfText _ _ text typeMod
    · exact catchable_ok _

theorem catchable_toText (d : Datum) : Catchable d.toText := by
  cases d with
  | array a => exact catchable_error rfl
  | row r => exact catchable_error rfl
  | _ => exact catchable_ok _

end Datum

theorem ArrayOf.catchable_ofDims {α : Type} (element : TypeId) (dims : List ArrayDim)
    (elements : List (Option α)) : Catchable (ArrayOf.ofDims element dims elements) := by
  unfold ArrayOf.ofDims
  simp only
  split
  · exact catchable_error rfl
  · split
    · split
      · exact catchable_ok _
      · exact catchable_error rfl
    · split
      · exact catchable_error rfl
      · split
        · exact catchable_error rfl
        · exact catchable_ok _

/-! ### Documents -/

mutual

theorem ScriptValue.catchable_toJson (v : ScriptValue) : Catchable v.toJson := by
  cases v with
  | nil => exact catchable_ok _
  | bool b => exact catchable_ok _
  | int n => exact catchable_ok _
  | number x =>
    unfold ScriptValue.toJson
    split
    · exact catchable_ok _
    · exact catchable_error rfl
  | string b =>
    unfold ScriptValue.toJson
    split
    · exact catchable_ok _
    · exact catchable_error rfl
  | cursor name => exact catchable_ok _
  | tuple row => exact catchable_error rfl
  | table entries =>
    unfold ScriptValue.toJson
    exact (ScriptTable.catchable_toMembers entries).map _

theorem ScriptTable.catchable_toMembers (entries : List (ScriptKey × ScriptValue)) :
    Catchable (ScriptTable.toMembers entries) := by
  match entries with
  | [] => exact catchable_ok _
  | (k, v) :: rest =>
    unfold ScriptTable.toMembers
    exact (ScriptValue.catchable_toJson v).bind fun j _ =>
      (ScriptTable.catchable_toMembers rest).bind fun members _ => catchable_ok _

end

/-! ### From scripts to the database -/

namespace Marshal

variable {b : Border}

theorem catchable_textOf (v : ScriptValue) (type : TypeDescriptor) : Catchable (textOf v type) := by
  unfold textOf
  split
  · split
    · exact catchable_ok _
    · exact catchable_error rfl
  · exact catchable_ok _
  · exact catchable_ok _
  · split
    · exact catchable_ok _
    · exact catchable_error rfl
  · exact catchable_error rfl

theorem catchable_viaText (v : ScriptValue) (type : TypeDescriptor) (typeMod : Int32) :
    Catchable (viaText v type typeMod) :=
  (catchable_textOf v type).bind fun text _ => Datum.catchable_ofText type text typeMod

theorem catchable_intDatum (s : Scalar) (name : String) (n : Int) :
    Catchable (intDatum s name n) := by
  unfold intDatum
  split
  · split
    · exact catchable_ok _
    · exact catchable_error rfl
  · split
    · exact catchable_ok _
    · exact catchable_error rfl
  · exact catchable_ok _

theorem catchable_toIntDatum (s : Scalar) (v : ScriptValue) (type : TypeDescriptor)
    (typeMod : Int32) : Catchable (toIntDatum s v type typeMod) := by
  unfold toIntDatum
  split
  · exact catchable_intDatum s _ _
  · split
    · exact catchable_intDatum s _ _
    · exact catchable_error rfl
  · exact catchable_viaText _ type typeMod
  · exact catchable_error rfl

theorem catchable_toFloatDatum (wrap : Float → Datum) (v : ScriptValue) (type : TypeDescriptor)
    (typeMod : Int32) : Catchable (toFloatDatum wrap v type typeMod) := by
  unfold toFloatDatum
  split
  · exact catchable_ok _
  · exact catchable_ok _
  · exact catchable_viaText _ type typeMod
  · exact catchable_error rfl

theorem catchable_scalarToRelational (v : ScriptValue) (type : TypeDescriptor) (typeMod : Int32) :
    Catchable (scalarToRelational v type typeMod) := by
  unfold scalarToRelational
  split
  · split
    · exact catchable_ok _
    · exact catchable_viaText _ type typeMod
    · exact catchable_error rfl
  · exact catchable_toIntDatum _ v type typeMod
  · exact catchable_toIntDatum _ v type typeMod
  · exact catchable_toIntDatum _ v type typeMod
  · exact catchable_toFloatDatum _ v type typeMod
  · exact catchable_toFloatDatum _ v type typeMod
  · split
    · exact catchable_ok _
    · exact catchable_error rfl
  · exact (ScriptValue.catchable_toJson v).map _
  · split
    · exact catchable_ok _
    · exact (catchable_textOf _ type).map _
    · exact catchable_error rfl
  · exact (catchable_textOf v type).map _
  · exact catchable_viaText v type typeMod

theorem catchable_plainToRelational (v : ScriptValue) (type : TypeDescriptor) (typeMod : Int32) :
    Catchable (plainToRelational v type typeMod) := by
  unfold plainToRelational
  split
  · exact catchable_error rfl
  · exact catchable_error rfl
  · split
    · exact catchable_ok _
    · split <;> exact catchable_error rfl
  · exact (catchable_viaText v type typeMod).map _
  · exact (catchable_scalarToRelational v type typeMod).map _
  · exact catchable_error rfl

theorem catchable_joinDepth (x y : Option Nat) : Catchable (joinDepth x y) := by
  unfold joinDepth
  split
  · exact catchable_ok _
  · exact catchable_ok _
  · split
    · exact catchable_ok _
    · exact catchable_error rfl

mutual

theorem catchable_scanValue (maxDims : Nat) (leafTables : Bool) (level : Nat) (bounds : Bounds)
    (v : ScriptValue) : Catchable (scanValue maxDims leafTables level bounds v) := by
  match v with
  | .table entries =>
    unfold scanValue
    split
    · exact catchable_ok _
    · exact (catchable_scanEntries maxDims leafTables (level + 1) none bounds entries).map _
  | .nil | .bool _ | .int _ | .number _ | .string _ | .cursor _ | .tuple _ => exact catchable_ok _

theorem catchable_scanEntries (maxDims : Nat) (leafTables : Bool) (level : Nat)
    (depth : Option Nat) (bounds : Bounds) (entries : List (ScriptKey × ScriptValue)) :
    Catchable (scanEntries maxDims leafTables level depth bounds entries) := by
  match entries with
  | [] => exact catchable_ok _
  | (.text _, _) :: rest =>
    unfold scanEntries
    exact catchable_scanEntries maxDims leafTables level depth bounds rest
  | (.int k, v) :: rest =>
    have hvalue := catchable_scanValue maxDims leafTables level (bounds.widen level k.toInt) v
    unfold scanEntries
    simp only
    split
    · exact catchable_error rfl
    · split
      · exact catchable_error rfl
      · split
        next f heq => exact catchable_error (hvalue f heq)
        next below bounds' heq =>
          split
          next f heq => exact catchable_error (catchable_joinDepth depth below f heq)
          next depth' _ =>
            exact catchable_scanEntries maxDims leafTables level depth' bounds' rest

end

theorem catchable_scan (maxDims : Nat) (leafTables : Bool) (entries : ScriptTable) :
    Catchable (scan maxDims leafTables entries) :=
  (catchable_scanEntries maxDims leafTables 0 none [] entries).map _

open Resolving (catchable_pure catchable_throw catchable_liftExcept catchable_descriptor
  catchable_resolveDomain)

theorem catchable_tablesAreLeaves (hcat : b.catalog.Catchable) (element : TypeId) :
    (tablesAreLeaves b element).Catchable :=
  (catchable_resolveDomain hcat element (-1)).bind fun _ => catchable_pure _

theorem catchable_elementStorage (hcat : b.catalog.Catchable) (element : TypeId) :
    (elementStorage b element).Catchable := by
  refine (catchable_descriptor hcat element).bind fun type => ?_
  split
  · exact (catchable_descriptor hcat _).bind fun type => catchable_pure _
  · exact catchable_pure _

theorem catchable_arrayOfSlots (hcat : b.catalog.Catchable) (element : TypeId)
    (dims : List ArrayDim) (slots : List (Option Datum)) :
    (arrayOfSlots b element dims slots).Catchable := by
  refine (catchable_liftExcept (ArrayOf.catchable_ofDims element dims slots)).bind fun array =>
    (catchable_elementStorage hcat element).bind fun storage => ?_
  simp only
  split
  · exact (catchable_throw rfl).bind fun _ => catchable_pure _
  · exact catchable_pure _

theorem catchable_rowOfTuple (row : Option RowValue) : Catchable (rowOfTuple row) := by
  cases row with
  | none => exact catchable_error rfl
  | some row => exact catchable_ok row

/-- The conversion fails fatally only if that of a row to another layout does. -/
theorem catchable_convert (hcat : b.catalog.Catchable)
    {ofTuple : RowValue → RowLayout → Resolving RowValue}
    (hof : ∀ row layout, (ofTuple row layout).Catchable) (v : ScriptValue) (id : TypeId)
    (typeMod : Int32) : (convert b ofTuple v id typeMod).Catchable := by
  have hplain : ∀ v type typeMod,
      Resolving.Catchable (liftExcept (plainToRelational v type typeMod)) := fun v type typeMod =>
    catchable_liftExcept (catchable_plainToRelational v type typeMod)
  -- the recursion is that of the conversion: into the values of a table
  fun_induction convert b ofTuple v id typeMod with
  | case1 => exact catchable_pure _
  | case2 entries id typeMod ihArray ihRow =>
    refine (catchable_resolveDomain hcat id typeMod).bind fun resolved => ?_
    simp only
    split
    next element _ =>
      refine (catchable_tablesAreLeaves hcat element).bind fun leafTables =>
        (catchable_liftExcept (catchable_scan _ _ _)).bind fun dims => ?_
      split
      · exact catchable_pure _
      · split
        · exact catchable_throw rfl
        · refine (Resolving.catchable_traverseMem fun p _ => ?_).bind fun placed =>
            (catchable_arrayOfSlots hcat element dims _).bind fun array => catchable_pure _
          exact (ihArray element dims p ‹_›).bind fun d => catchable_pure _
    next layout _ =>
      refine (Resolving.catchable_mapM (fun a => ?_) _).bind fun values => catchable_pure _
      split
      next v hfound => exact ihRow a v hfound
      · exact catchable_pure _
    · exact hplain _ _ _
  | case3 row id typeMod =>
    refine (catchable_resolveDomain hcat id typeMod).bind fun resolved => ?_
    simp only
    split
    next layout _ =>
      exact (catchable_liftExcept (catchable_rowOfTuple row)).bind fun row =>
        (hof row layout).bind fun row => catchable_pure _
    · split
      · exact (catchable_liftExcept (catchable_rowOfTuple row)).bind fun row => catchable_pure _
      · exact hplain _ _ _
  | case4 v id typeMod =>
    exact (catchable_resolveDomain hcat id typeMod).bind fun resolved => hplain v _ _

/-! ### From the database to scripts -/

theorem catchable_scalarToScript (b : Border) (type : Option Scalar) (d : Datum) :
    Catchable (scalarToScript b type d) := by
  unfold scalarToScript
  split
  iterate 12 exact catchable_ok _
  exact (Datum.catchable_toText d).map _

theorem catchable_plainToScript (b : Border) (type : TypeDescriptor) (d : Datum) :
    Catchable (plainToScript b type d) := by
  unfold plainToScript
  split
  · exact (Datum.catchable_toText d).map _
  · exact catchable_scalarToScript b _ d
  · exact catchable_error rfl

mutual

theorem catchable_toScript (hcat : b.catalog.Catchable) (d : Datum) (id : TypeId) :
    (toScript b d id).Catchable := by
  match d with
  | .array ⟨t, dims, elements⟩ =>
    unfold toScript
    refine (catchable_resolveDomain hcat id (-1)).bind fun resolved => ?_
    simp only
    split
    next element _ =>
      split
      · exact catchable_pure _
      · exact (catchable_elementsToScript hcat elements element).bind fun values =>
          catchable_pure _
    · exact catchable_liftExcept (catchable_plainToScript b _ _)
  | .row ⟨layout, values⟩ =>
    unfold toScript
    refine (catchable_resolveDomain hcat id (-1)).bind fun resolved => ?_
    simp only
    split
    · exact (catchable_columnsToScript hcat layout.attributes values []).bind fun entries =>
        catchable_pure _
    · exact catchable_liftExcept (catchable_plainToScript b _ _)
  | .bool _ | .int2 _ | .int4 _ | .int8 _ | .float4 _ | .float8 _ | .numeric _ | .text _
  | .bytea _ | .json _ | .enum _ | .refcursor _ | .other _ =>
    unfold toScript
    exact (catchable_resolveDomain hcat id (-1)).bind fun resolved =>
      catchable_liftExcept (catchable_plainToScript b _ _)

theorem catchable_elementsToScript (hcat : b.catalog.Catchable) (elements : List (Option Datum))
    (id : TypeId) : (elementsToScript b elements id).Catchable := by
  match elements with
  | [] => exact catchable_pure _
  | none :: rest =>
    unfold elementsToScript
    exact (catchable_elementsToScript hcat rest id).bind fun values => catchable_pure _
  | some d :: rest =>
    unfold elementsToScript
    exact (catchable_toScript hcat d id).bind fun value =>
      (catchable_elementsToScript hcat rest id).bind fun values => catchable_pure _

theorem catchable_columnsToScript (hcat : b.catalog.Catchable) (attributes : List Attribute)
    (values : List (Option Datum)) (table : ScriptTable) :
    (columnsToScript b attributes values table).Catchable := by
  match attributes, values with
  | a :: attributes, some d :: values =>
    unfold columnsToScript
    exact (catchable_toScript hcat d a.typeId).bind fun value =>
      catchable_columnsToScript hcat attributes values _
  | _ :: attributes, none :: values =>
    unfold columnsToScript
    exact catchable_columnsToScript hcat attributes values table
  | [], _ => unfold columnsToScript; exact catchable_pure _
  | _ :: _, [] => unfold columnsToScript; exact catchable_pure _

end

/-- Making the script form of a value does not fail fatally. -/
theorem catchable_optionToScript (hcat : b.catalog.Catchable) (d : Option Datum) (id : TypeId) :
    (optionToScript b d id).Catchable := by
  cases d with
  | none => exact catchable_pure _
  | some d => exact catchable_toScript hcat d id

/-! ### Rows -/

theorem catchable_retype (hcat : b.catalog.Catchable) (row : RowValue) (layout : RowLayout) :
    (retype b row layout).Catchable := by
  unfold retype
  split
  · exact catchable_pure _
  · refine (Resolving.catchable_mapM (fun a => ?_) _).bind fun values => catchable_pure _
    split
    · exact catchable_pure _
    · exact (catchable_optionToScript hcat _ _).bind fun script =>
        catchable_convert hcat (fun _ _ => catchable_throw rfl) script a.typeId a.typeMod

/-- Making a value of the database does not fail fatally. -/
theorem catchable_toRelational (hcat : b.catalog.Catchable) (v : ScriptValue) (id : TypeId)
    (typeMod : Int32) : (toRelational b v id typeMod).Catchable :=
  catchable_convert hcat (catchable_retype hcat) v id typeMod

/-- Making a row of the database does not fail fatally. -/
theorem catchable_toRow (hcat : b.catalog.Catchable) (v : ScriptValue) (layout : RowLayout) :
    (toRow b v layout).Catchable := by
  unfold toRow
  split
  · refine (Resolving.catchable_mapM (fun a => ?_) _).bind fun values => catchable_pure _
    split
    · exact catchable_toRelational hcat _ _ _
    · exact catchable_pure _
  · exact (catchable_liftExcept (catchable_rowOfTuple _)).bind fun row =>
      catchable_retype hcat row layout
  · exact catchable_throw rfl

end Marshal

end StoredRoutine
