/-!
# `StoredRoutine.Catalog.Entry`: what the catalog says of a type

A type is named by its identifier. The catalog holds one `Entry` for each: its class, how its
values are stored, and the data of its class (the element of an array type, the base of a domain,
the columns of a composite, the labels of an enum). Row layouts, which composites and query results
share, are here as well.
-/

set_option autoImplicit false

namespace StoredRoutine

/-- The identifier of a catalog object. -/
abbrev TypeId : Type := UInt32

namespace TypeId

/-- The anonymous record pseudo-type. -/
def record : TypeId := 2249
/-- The result type of a routine without a result. -/
def void : TypeId := 2278
/-- The result type of a trigger function. -/
def trigger : TypeId := 2279

end TypeId

/-- The scalar types whose values the library treats in a way of their own. -/
inductive Scalar where
  | bool | bytea | int8 | int2 | int4 | text | json | float4 | float8 | bpchar | varchar
  | numeric | refcursor
  deriving Repr, DecidableEq

namespace Scalar

/-- The identifier of a scalar type. -/
def id : Scalar → TypeId
  | bool => 16
  | bytea => 17
  | int8 => 20
  | int2 => 21
  | int4 => 23
  | text => 25
  | json => 114
  | float4 => 700
  | float8 => 701
  | bpchar => 1042
  | varchar => 1043
  | numeric => 1700
  | refcursor => 1790

/-- All scalar types. -/
def all : List Scalar :=
  [bool, bytea, int8, int2, int4, text, json, float4, float8, bpchar, varchar, numeric, refcursor]

/-- The scalar type with the given identifier. -/
def ofId? (id : TypeId) : Option Scalar := all.find? fun s => s.id == id

/-- Looking up the identifier of a scalar type finds it again. -/
theorem ofId?_id (s : Scalar) : ofId? s.id = some s := by cases s <;> rfl

end Scalar

/-- How the start of a stored value is rounded up. -/
inductive Alignment where
  | char | short | int | double
  deriving Repr, DecidableEq

namespace Alignment

/-- The alignment in bytes. -/
def bytes : Alignment → Nat
  | char => 1
  | short => 2
  | int => 4
  | double => 8

/-- The least multiple of the alignment that is not below `len`. -/
def align (a : Alignment) (len : Nat) : Nat := (len + a.bytes - 1) / a.bytes * a.bytes

end Alignment

/-- One column of a row layout. -/
structure Attribute where
  name : String
  typeId : TypeId
  /-- The type modifier; -1 stands for none. -/
  typeMod : Int32 := -1
  deriving Repr, DecidableEq, Inhabited

/-- The ordered columns of a composite type or of a query result. -/
structure RowLayout where
  /-- The composite type, or `TypeId.record` for an anonymous row. -/
  typeId : TypeId
  attributes : List Attribute
  deriving Repr, DecidableEq, Inhabited

namespace RowLayout

/-- A layout of no named type. -/
def anonymous (attributes : List Attribute) : RowLayout := ⟨TypeId.record, attributes⟩

/-- The number of columns. -/
def length (l : RowLayout) : Nat := l.attributes.length

/-- The position of the first column with the given name. -/
def position? (l : RowLayout) (name : String) : Option Nat :=
  l.attributes.findIdx? fun a => a.name == name

end RowLayout

namespace Catalog

/-- The classification of a type. -/
inductive TypeClass where
  | base | composite | domain | enum | pseudo
  deriving Repr, DecidableEq

/-- What the catalog says of one type. -/
structure Entry where
  id : TypeId
  name : String
  typeClass : TypeClass
  /-- The stored length: positive when fixed, -1 when variable, -2 for a text with an end mark. -/
  len : Int16
  byValue : Bool
  align : Alignment
  /-- The element type of an array type. -/
  element : Option TypeId := none
  /-- The underlying type of a domain. -/
  base : Option TypeId := none
  /-- The type modifier of a domain; -1 stands for none. -/
  baseTypeMod : Int32 := -1
  /-- The columns of a composite type. -/
  attributes : List Attribute := []
  /-- The labels of an enum type, in order. -/
  labels : List String := []
  deriving Repr, DecidableEq

namespace Entry

/-- A scalar type. -/
def scalar (id : TypeId) (name : String) (len : Int16) (byValue : Bool) (align : Alignment) :
    Entry :=
  { id, name, typeClass := .base, len, byValue, align }

/-- An array type over `element`. -/
def array (id : TypeId) (name : String) (element : TypeId) (align : Alignment) : Entry :=
  { id, name, typeClass := .base, len := -1, byValue := false, align, element := some element }

/-- A pseudo-type. -/
def pseudo (id : TypeId) (name : String) : Entry :=
  { id, name, typeClass := .pseudo, len := 4, byValue := true, align := .int }

/-- A composite type. -/
def composite (id : TypeId) (name : String) (attributes : List Attribute) : Entry :=
  { id, name, typeClass := .composite, len := -1, byValue := false, align := .double, attributes }

/-- An enum type. -/
def enum (id : TypeId) (name : String) (labels : List String) : Entry :=
  { id, name, typeClass := .enum, len := 4, byValue := true, align := .int, labels }

/-- A domain, stored as its base is. -/
def domain (id : TypeId) (name : String) (base : Entry) (typeMod : Int32) : Entry :=
  { id, name, typeClass := .domain, len := base.len, byValue := base.byValue, align := base.align,
    base := some base.id, baseTypeMod := typeMod }

end Entry

end Catalog

end StoredRoutine
