import StoredRoutine.Marshal.ToScript

/-!
# `StoredRoutine.Marshal.ToRelational`: script values as relational values

The way back. nil is NULL. Numbers and strings are taken over where the type has a form for them
and go through text input otherwise; a table becomes an array or a row, or a document; a row
object becomes a row, column by column when its layout differs from the one asked for.

`convert` is the conversion with a hook for row objects that meet a composite type. `toRelational`
fills the hook: a row object is first given its script form, in which no row object occurs any
more.
-/

set_option autoImplicit false
set_option linter.unusedVariables false

namespace StoredRoutine.Marshal

/-! ### Failures -/

/-- A value of a kind that the type cannot hold. -/
def noConversion (v : ScriptValue) (typeName : String) : Failure :=
  .conversion s!"cannot convert {v.typeName} to {typeName}"

/-- A whole number beyond the width of its type. -/
def valueRange (n : Int) (typeName : String) : Failure :=
  .conversion s!"value {n} out of range for type {typeName}"

/-- An array whose slots or size exceed the ceiling. -/
def slotsExceeded (limit : Nat) : Failure :=
  .size s!"array size exceeds the maximum allowed ({limit})"

/-- An array whose stored size exceeds the ceiling. -/
def sizeExceeded (size limit : Nat) : Failure :=
  .size s!"array size {size} exceeds the maximum allowed ({limit})"

/-- A row object whose layout has been released. -/
def lostLayout : Failure := .runtime { message := "tuple descriptor was released" }

/-! ### Scalars -/

/-- A number with its point, as scripts write it; large whole numbers have none. -/
def numberText (x : Float) : String :=
  let whole : Bool := decide (x.abs < 1e15)
  { Decimal.FloatStyle.plain with wholePoint := whole }.render x

/-- The text of a scalar script value. -/
def textOf (v : ScriptValue) (type : TypeDescriptor) : Outcome String :=
  match v with
  | .string b =>
    match String.fromUTF8? b with
    | some s => .ok s
    | none => .error (.conversion s!"invalid UTF-8 string for type {type.name}")
  | .int n => .ok (toString n.toInt)
  | .number x => .ok (numberText x)
  | .bool v =>
    if type.id = Scalar.text.id ∨ type.id = Scalar.bool.id then .ok (if v then "true" else "false")
    else .error (noConversion (.bool v) type.name)
  | v => .error (noConversion v type.name)

/-- Reads the text of a value as a value of the type. -/
def viaText (v : ScriptValue) (type : TypeDescriptor) (typeMod : Int32) : Outcome Datum := do
  let text ← textOf v type
  Datum.ofText type text typeMod

/-- The doubles that are taken as integers are whole and at most this large. -/
def maxWholeFloat : Int := 9200000000000000000

/-- The integer that a double stands for. -/
def wholeOfFloat? (x : Float) : Option Int :=
  ((Decimal.Binary.ofFloat x).toInt?).filter fun n => -maxWholeFloat ≤ n ∧ n ≤ maxWholeFloat

/-- A whole number as a value of one of the integer types. -/
def intDatum (s : Scalar) (typeName : String) (n : Int) : Outcome Datum :=
  match s with
  | .int2 =>
    if -(2 ^ 15) ≤ n ∧ n < 2 ^ 15 then .ok (.int2 (Int16.ofInt n))
    else .error (valueRange n typeName)
  | .int4 =>
    if -(2 ^ 31) ≤ n ∧ n < 2 ^ 31 then .ok (.int4 (Int32.ofInt n))
    else .error (valueRange n typeName)
  | _ => .ok (.int8 (Int64.ofInt n))

/-- A script value as a value of an integer type. -/
def toIntDatum (s : Scalar) (v : ScriptValue) (type : TypeDescriptor) (typeMod : Int32) :
    Outcome Datum :=
  match v with
  | .int n => intDatum s type.name n.toInt
  | .number x =>
    match wholeOfFloat? x with
    | some n => intDatum s type.name n
    | none => .error (.conversion s!"number has no integer representation for {type.name}")
  | .string b => viaText (.string b) type typeMod
  | v => .error (noConversion v type.name)

/-- A script value as a double. -/
def toFloatDatum (wrap : Float → Datum) (v : ScriptValue) (type : TypeDescriptor)
    (typeMod : Int32) :
    Outcome Datum :=
  match v with
  | .int n => .ok (wrap n.toFloat)
  | .number x => .ok (wrap x)
  | .string b => viaText (.string b) type typeMod
  | v => .error (noConversion v type.name)

/-- A script value as a value of a base type. -/
def scalarToRelational (v : ScriptValue) (type : TypeDescriptor) (typeMod : Int32) :
    Outcome Datum :=
  match Scalar.ofId? type.id with
  | some .bool =>
    match v with
    | .bool x => .ok (.bool x)
    | .string b => viaText (.string b) type typeMod
    | v => .error (noConversion v type.name)
  | some .int2 => toIntDatum .int2 v type typeMod
  | some .int4 => toIntDatum .int4 v type typeMod
  | some .int8 => toIntDatum .int8 v type typeMod
  | some .float4 => toFloatDatum (fun x => .float4 x.toFloat32) v type typeMod
  | some .float8 => toFloatDatum .float8 v type typeMod
  | some .bytea =>
    match v with
    | .string b => .ok (.bytea b)
    | v => .error (noConversion v type.name)
  | some .json => v.toJson.map .json
  | some .refcursor =>
    match v with
    | .cursor name => .ok (.refcursor name)
    | .string b => (textOf (.string b) type).map .refcursor
    | v => .error (noConversion v type.name)
  | some .text => (textOf v type).map .text
  | _ => viaText v type typeMod

/-- A value that is neither nil nor a table or row object for a type that takes one. -/
def plainToRelational (v : ScriptValue) (type : TypeDescriptor) (typeMod : Int32) :
    Outcome (Option Datum) :=
  match type.kind with
  | .array _ => .error (.conversion s!"cannot convert {v.typeName} to an array")
  | .composite _ => .error (.conversion s!"cannot convert {v.typeName} to a composite value")
  | .pseudo =>
    if type.id = TypeId.void then .ok none
    else if type.id = TypeId.record then
      .error (.conversion s!"cannot convert {v.typeName} to record: the row layout is unknown")
    else .error (.conversion s!"cannot convert a value to type {type.name}")
  | .enum _ => (viaText v type typeMod).map some
  | .base => (scalarToRelational v type typeMod).map some
  | .domain _ _ => .error (.internal "domain was not resolved")

/-! ### Arrays -/

/-- Whether tables are elements of an array of the given element type, and not a further
dimension. -/
def tablesAreLeaves (b : Border) (element : TypeId) : Resolving Bool := do
  let (type, _) ← Resolving.resolveDomain b.catalog element (-1)
  return type.isRow || type.id == Scalar.json.id

/-- The stored length and alignment of elements; those of a domain are its base's. -/
def elementStorage (b : Border) (element : TypeId) : Resolving (Int16 × Alignment) := do
  let type ← Resolving.descriptor b.catalog element
  match type.kind with
  | .domain base _ =>
    let type ← Resolving.descriptor b.catalog base
    return (type.len, type.align)
  | _ => return (type.len, type.align)

/-- The array with the given slots, if its stored size stays under the ceiling. -/
def arrayOfSlots (b : Border) (element : TypeId) (dims : List ArrayDim)
    (slots : List (Option Datum)) : Resolving Datum := do
  let array ← liftExcept (ArrayOf.ofDims element dims slots)
  let (len, align) ← elementStorage b element
  let size := array.encodedSizeFor len align
  if b.options.maxAllocSize < size then throw (sizeExceeded size b.options.maxAllocSize)
  return .array array

/-! ### The conversion -/

/-- Runs an action for every member of a list, in order. The action is told that its argument is a
member. -/
def traverseMem {m : Type → Type} [Monad m] {α β : Type} :
    (l : List α) → ((a : α) → a ∈ l → m β) → m (List β)
  | [], _ => pure []
  | a :: rest, f => do
    let x ← f a (List.mem_cons_self ..)
    let xs ← traverseMem rest fun y h => f y (List.mem_cons_of_mem _ h)
    return x :: xs

/-- The row of a row object. -/
def rowOfTuple (row : Option RowValue) : Outcome RowValue :=
  match row with
  | some row => .ok row
  | none => .error lostLayout

/-- The relational form of a script value at a type, under a type modifier. `ofTuple` converts a row
object to a row of another layout. -/
def convert (b : Border) (ofTuple : RowValue → RowLayout → Resolving RowValue) :
    ScriptValue → TypeId → Int32 → Resolving (Option Datum)
  | .nil, _, _ => pure none
  | .table entries, id, typeMod => do
    let (type, typeMod) ← Resolving.resolveDomain b.catalog id typeMod
    match type.kind with
    | .array element =>
      let leafTables ← tablesAreLeaves b element
      let dims ← liftExcept (scan b.options.maxArrayDims leafTables entries)
      if dims.isEmpty then return some (.array (ArrayOf.empty element))
      match slotCount? b.options.maxAllocSize dims with
      | none => throw (slotsExceeded b.options.maxAllocSize)
      | some count =>
        let placed ← traverseMem (placements dims entries) fun p h => do
          let d ← convert b ofTuple p.2 element (-1)
          return (p.1, d)
        let array ← arrayOfSlots b element dims (scatter count placed)
        return some array
    | .composite layout =>
      let values ← layout.attributes.mapM fun a =>
        match hfound : ScriptTable.find? (.text a.name) entries with
        | some v => convert b ofTuple v a.typeId a.typeMod
        | none => pure none
      return some (.row ⟨layout, values⟩)
    | _ => liftExcept (plainToRelational (.table entries) type typeMod)
  | .tuple row, id, typeMod => do
    let (type, typeMod) ← Resolving.resolveDomain b.catalog id typeMod
    match type.kind with
    | .composite layout =>
      let row ← liftExcept (rowOfTuple row)
      let row ← ofTuple row layout
      return some (.row row)
    | _ =>
      if type.kind = .pseudo ∧ type.id = TypeId.record then
        let row ← liftExcept (rowOfTuple row)
        return some (.row row)
      else liftExcept (plainToRelational (.tuple row) type typeMod)
  | v, id, typeMod => do
    let (type, typeMod) ← Resolving.resolveDomain b.catalog id typeMod
    liftExcept (plainToRelational v type typeMod)
termination_by v => sizeOf v
decreasing_by
  · have := sizeOf_of_mem_placementsFrom h
    simp only [ScriptValue.table.sizeOf_spec]
    omega
  · have := ScriptTable.sizeOf_of_find? hfound
    simp only [ScriptValue.table.sizeOf_spec]
    omega

/-- Converts a row to another layout. With the same columns the values are taken over; otherwise
each column takes the script form of the column of its name, and is NULL when there is none. -/
def retype (b : Border) (row : RowValue) (layout : RowLayout) : Resolving RowValue :=
  if row.layout.attributes = layout.attributes then pure ⟨layout, row.values⟩
  else do
    let values ← layout.attributes.mapM fun a =>
      match row.layout.position? a.name with
      | none => pure none
      | some i => do
        let source := (row.layout.attributes[i]?).getD a
        let script ← optionToScript b (row.values[i]?).join source.typeId
        -- A script form holds no row object.
        convert b (fun _ _ => throw (.internal "row object inside a script form")) script a.typeId
          a.typeMod
    return ⟨layout, values⟩

/-- The relational form of a script value at a type, under a type modifier; nil is NULL. -/
def toRelational (b : Border) (v : ScriptValue) (id : TypeId) (typeMod : Int32) :
    Resolving (Option Datum) :=
  convert b (retype b) v id typeMod

/-- A table or a row object as a row of the given layout. Keys that are no column are ignored, and
missing columns are NULL. -/
def toRow (b : Border) (v : ScriptValue) (layout : RowLayout) : Resolving RowValue :=
  match v with
  | .table entries => do
    let values ← layout.attributes.mapM fun a =>
      match ScriptTable.find? (.text a.name) entries with
      | some v => toRelational b v a.typeId a.typeMod
      | none => pure none
    return ⟨layout, values⟩
  | .tuple row => do
    let row ← liftExcept (rowOfTuple row)
    retype b row layout
  | v => throw (.conversion s!"cannot convert {v.typeName} to a composite value")

end StoredRoutine.Marshal
