import StoredRoutine.Datum.Array
import StoredRoutine.Json.Writer

/-!
# `StoredRoutine.Datum.Basic`: relational values

A `Datum` is a value that is not NULL, in the database's representation. Wherever a NULL may stand
the type is `Option Datum`: in arguments, in the fields of a row, in the elements of an array.
-/

set_option autoImplicit false

namespace StoredRoutine

/-- A row: a layout, and a value for each of its columns. -/
structure RowOf (α : Type) where
  layout : RowLayout
  values : List (Option α)
  deriving Repr, DecidableEq

namespace RowOf

variable {α : Type}

/-- Builds a row, which needs as many values as the layout has columns. -/
def ofValues (layout : RowLayout) (values : List (Option α)) : Outcome (RowOf α) :=
  if values.length = layout.length then .ok ⟨layout, values⟩
  else
    .error (.conversion
      s!"row has {values.length} values but its layout has {layout.length} columns")

/-- The row in which every column is NULL. -/
def nulls (layout : RowLayout) : RowOf α := ⟨layout, List.replicate layout.length none⟩

/-- The value of the column with the given name; `none` also when it is NULL. -/
def get? (r : RowOf α) (name : String) : Option α :=
  (r.layout.position? name).bind fun i => (r.values[i]?).join

end RowOf

/-- A relational value that is not NULL. -/
inductive Datum where
  | bool (value : Bool)
  | int2 (value : Int16)
  | int4 (value : Int32)
  | int8 (value : Int64)
  | float4 (value : Float32)
  | float8 (value : Float)
  /-- An exact decimal, in its canonical text. -/
  | numeric (text : String)
  /-- A text of any character type. -/
  | text (value : String)
  | bytea (bytes : ByteArray)
  | json (document : Json)
  | enum (label : String)
  | array (value : ArrayOf Datum)
  | row (value : RowOf Datum)
  /-- A cursor, by the name of its portal. -/
  | refcursor (name : String)
  /-- A value of any other type, in its text form. -/
  | other (text : String)

instance : Inhabited Datum := ⟨.bool false⟩

/-- An array of relational values. -/
abbrev ArrayValue : Type := ArrayOf Datum

/-- A row of relational values. -/
abbrev RowValue : Type := RowOf Datum

namespace Datum

/-- The name of the kind of a value. -/
def kindName : Datum → String
  | .bool _ => "boolean"
  | .int2 _ => "smallint"
  | .int4 _ => "integer"
  | .int8 _ => "bigint"
  | .float4 _ => "real"
  | .float8 _ => "double precision"
  | .numeric _ => "numeric"
  | .text _ => "text"
  | .bytea _ => "bytea"
  | .json _ => "json"
  | .enum _ => "enum"
  | .array _ => "array"
  | .row _ => "record"
  | .refcursor _ => "refcursor"
  | .other _ => "other"

/-- The size of a row: a header, a bitmap, and each value with a length word. -/
def rowSize (sizes : List (Option Nat)) : Nat :=
  sizes.foldl (fun total s => total + (s.map (· + 4)).getD 0) (24 + (sizes.length + 7) / 8)

mutual

/-- The bytes that the data of a value takes, without a length word. -/
def dataSize : Datum → Nat
  | .bool _ => 1
  | .int2 _ => 2
  | .int4 _ => 4
  | .float4 _ => 4
  | .enum _ => 4
  | .int8 _ => 8
  | .float8 _ => 8
  | .numeric s => s.utf8ByteSize
  | .text s => s.utf8ByteSize
  | .refcursor s => s.utf8ByteSize
  | .other s => s.utf8ByteSize
  | .bytea b => b.size
  | .json v => v.render.utf8ByteSize
  | .array ⟨_, dims, elements⟩ => ArrayOf.storedSize dims.length (dataSizes elements) (-1) .int
  | .row ⟨_, values⟩ => rowSize (dataSizes values)

/-- The data sizes of a list of values; a NULL has none. -/
def dataSizes : List (Option Datum) → List (Option Nat)
  | [] => []
  | none :: rest => none :: dataSizes rest
  | some d :: rest => some (dataSize d) :: dataSizes rest

end

mutual

/-- Whether two values are the same. Floats compare as numbers. -/
def same : Datum → Datum → Bool
  | .bool a, .bool b => a == b
  | .int2 a, .int2 b => a == b
  | .int4 a, .int4 b => a == b
  | .int8 a, .int8 b => a == b
  | .float4 a, .float4 b => a == b
  | .float8 a, .float8 b => a == b
  | .numeric a, .numeric b => a == b
  | .text a, .text b => a == b
  | .bytea a, .bytea b => a == b
  | .json a, .json b => a == b
  | .enum a, .enum b => a == b
  | .array ⟨t, ds, as⟩, .array ⟨u, es, bs⟩ => t == u && ds == es && sameAll as bs
  | .row ⟨l, as⟩, .row ⟨m, bs⟩ => l == m && sameAll as bs
  | .refcursor a, .refcursor b => a == b
  | .other a, .other b => a == b
  | _, _ => false

/-- Whether two lists of values are the same; a NULL is the same as a NULL. -/
def sameAll : List (Option Datum) → List (Option Datum) → Bool
  | [], [] => true
  | none :: as, none :: bs => sameAll as bs
  | some a :: as, some b :: bs => same a b && sameAll as bs
  | _, _ => false

end

instance : BEq Datum := ⟨same⟩

end Datum

/-- The stored size of an array for elements of the given length and alignment. -/
def ArrayOf.encodedSizeFor (a : ArrayValue) (elementLen : Int16) (align : Alignment) : Nat :=
  ArrayOf.storedSize a.dims.length (Datum.dataSizes a.elements) elementLen align

end StoredRoutine
