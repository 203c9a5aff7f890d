import StoredRoutine.Catalog.Descriptor
import StoredRoutine.Catalog.TypeCache
import StoredRoutine.Host.Portal
import StoredRoutine.Routine.Definition
import StoredRoutine.Text.Blank

/-!
# `StoredRoutine.Host.Basic`: the database in memory

`Host` is everything the database holds: the catalog of types and names, routines, tables,
registered statements, open portals, savepoints, messages received, and switches that make an
operation fail on purpose. This module has the catalog and the routines; queries, cursors and
savepoints are in `Host.Query`.

Identifiers of types, tables and routines come from one counter that starts at `firstId`. A new type
enters its name as it is given; a name is looked up without blanks around it and in lower case.
-/

set_option autoImplicit false

namespace StoredRoutine

/-- The state that a rollback returns to: the tables, and the names of the portals open then. -/
structure Savepoint where
  id : Nat
  tables : Tables
  portals : List String

/-- The severity of a message. -/
inductive NoticeLevel where
  | info | debug | warn
  deriving Repr, DecidableEq

/-- The database. -/
structure Host where
  types : List (TypeId × Catalog.Entry) := []
  /-- The types by name, the newest first. -/
  typeNames : List (String × TypeId) := []
  routines : List (TypeId × RoutineDefinition) := []
  relations : List (TypeId × String) := []
  tables : Tables := []
  statements : List (String × Statement) := []
  /-- Statements that fail with a report. -/
  failing : List (String × Report) := []
  portals : List (String × Portal) := []
  /-- The active savepoints, the innermost first. -/
  savepoints : List Savepoint := []
  modules : List InitModule := []
  /-- Messages, in the order of their arrival. -/
  notices : List (NoticeLevel × String) := []
  /-- The texts of the statements run, in order. -/
  executed : List String := []
  nextId : TypeId
  nextTransaction : UInt32
  /-- The number for the next savepoint or unnamed portal. -/
  nextNumber : Nat
  inTransaction : Bool := true
  failRollback : Bool := false
  failBegin : Bool := false
  failRelease : Bool := false

namespace Host

/-- The first identifier that is handed out. -/
def firstId : TypeId := 16384

/-- The first transaction. -/
def firstTransaction : UInt32 := 100

/-! ### Types -/

/-- The entry of a type. -/
def lookupType (h : Host) (id : TypeId) : Option Catalog.Entry := h.types.lookup id

/-- The catalog, which never fails here. -/
def catalog (h : Host) : Catalog.Lookup := fun id => .ok (h.lookupType id)

/-- The type that a name stands for. -/
def typeId? (h : Host) (name : String) : Option TypeId :=
  h.typeNames.lookup (Text.foldCase (Text.trim name))

/-- Gives a type one more name. -/
def addName (h : Host) (name : String) (id : TypeId) : Host :=
  { h with typeNames := (name, id) :: h.typeNames }

/-- Enters a type under its identifier and name. -/
def addType (h : Host) (e : Catalog.Entry) : Host :=
  { h.addName e.name e.id with types := (e.id, e) :: h.types }

/-- Takes the next identifier. -/
def allocateId (h : Host) : TypeId × Host := (h.nextId, { h with nextId := h.nextId + 1 })

/-- A scalar type as every database has it, with the identifier of its array type. -/
structure Builtin where
  scalar : Scalar
  name : String
  len : Int16
  byValue : Bool
  align : Alignment
  arrayId : TypeId

/-- The scalar types. -/
def builtins : List Builtin :=
  [⟨.bool, "bool", 1, true, .char, 1000⟩,
   ⟨.bytea, "bytea", -1, false, .int, 1001⟩,
   ⟨.int8, "int8", 8, true, .double, 1016⟩,
   ⟨.int2, "int2", 2, true, .short, 1005⟩,
   ⟨.int4, "int4", 4, true, .int, 1007⟩,
   ⟨.text, "text", -1, false, .int, 1009⟩,
   ⟨.json, "json", -1, false, .int, 199⟩,
   ⟨.float4, "float4", 4, true, .int, 1021⟩,
   ⟨.float8, "float8", 8, true, .double, 1022⟩,
   ⟨.bpchar, "bpchar", -1, false, .int, 1014⟩,
   ⟨.varchar, "varchar", -1, false, .int, 1015⟩,
   ⟨.numeric, "numeric", -1, false, .int, 1231⟩,
   ⟨.refcursor, "refcursor", -1, false, .int, 2201⟩]

/-- Enters a scalar type and its array type. -/
def addBuiltin (h : Host) (b : Builtin) : Host :=
  let h := h.addType (.scalar b.scalar.id b.name b.len b.byValue b.align)
  let h := h.addType (.array b.arrayId ("_" ++ b.name) b.scalar.id b.align)
  h.addName (b.name ++ "[]") b.arrayId

/-- Other names of scalar and array types. -/
def aliases : List (String × TypeId) :=
  [("boolean", Scalar.bool.id), ("smallint", Scalar.int2.id), ("integer", Scalar.int4.id),
   ("int", Scalar.int4.id), ("bigint", Scalar.int8.id), ("real", Scalar.float4.id),
   ("double precision", Scalar.float8.id), ("character varying", Scalar.varchar.id),
   ("character", Scalar.bpchar.id), ("integer[]", 1007), ("bigint[]", 1016)]

/-- A host that has never been used, without types. -/
def blank : Host :=
  { nextId := firstId, nextTransaction := firstTransaction, nextNumber := 1 }

/-- A new host, with the builtin types. -/
def new : Host :=
  let h := builtins.foldl addBuiltin blank
  let h := h.addType (.pseudo TypeId.void "void")
  let h := h.addType (.pseudo TypeId.trigger "trigger")
  let h := h.addType (.pseudo TypeId.record "record")
  let h := h.addType (.array 2287 "_record" TypeId.record .double)
  aliases.foldl (fun h a => h.addName a.1 a.2) h

/-- Defines an enum type. -/
def defineEnum (h : Host) (name : String) (labels : List String) : TypeId × Host :=
  let (id, h) := h.allocateId
  (id, h.addType (.enum id name labels))

/-- Defines a domain. A base that does not exist counts as a type of variable length. -/
def defineDomain (h : Host) (name : String) (base : TypeId) (typeMod : Int32) : TypeId × Host :=
  let (id, h) := h.allocateId
  let entry : Catalog.Entry :=
    match h.lookupType base with
    | some b => .domain id name b typeMod
    | none => .domain id name (.scalar base "" (-1) false .int) typeMod
  (id, h.addType entry)

/-- Defines a composite type. -/
def defineComposite (h : Host) (name : String) (attributes : List Attribute) : TypeId × Host :=
  let (id, h) := h.allocateId
  (id, h.addType (.composite id name attributes))

/-- Defines an array type, named after its element. -/
def defineArray (h : Host) (element : TypeId) : TypeId × Host :=
  let (id, h) := h.allocateId
  let entry : Catalog.Entry :=
    match h.lookupType element with
    | some e => .array id ("_" ++ e.name) element e.align
    | none => .array id s!"_{element}" element .int
  (id, h.addType entry)

/-! ### Tables and statements -/

/-- Defines a table and its row type. -/
def defineTable (h : Host) (name : String) (attributes : List Attribute) : TypeId × Host :=
  let (id, h) := h.defineComposite name attributes
  (id,
    { h with
      tables := h.tables.define name { typeId := id, attributes }
      relations := (id, name) :: h.relations })

/-- The layout of a table. -/
def tableLayout (h : Host) (name : String) : Outcome RowLayout :=
  (h.tables.table name).map (·.layout)

/-- The rows of a table; a table that does not exist has none. -/
def tableRows (h : Host) (name : String) : List Row :=
  match h.tables.table name with
  | .ok t => t.rows
  | .error _ => []

/-- Appends a row to a table. -/
def insertRow (h : Host) (name : String) (row : Row) : Outcome Unit × Host :=
  match h.tables.insert name row with
  | .ok tables => (.ok (), { h with tables })
  | .error f => (.error f, h)

/-- Registers a statement; an older one of the same text is gone. -/
def defineStatement (h : Host) (sql : String) (s : Statement) : Host :=
  { h with statements := (sql, s) :: h.statements }

/-- Makes every execution of a statement fail. -/
def failStatement (h : Host) (sql : String) (report : Report) : Host :=
  { h with failing := (sql, report) :: h.failing }

/-- The name of the table with the given identifier. -/
def relationName? (h : Host) (id : TypeId) : Option String := h.relations.lookup id

/-! ### Routines and modules -/

/-- Takes the stamp of the next transaction. -/
def nextStamp (h : Host) : RowStamp × Host :=
  (.ofTransaction h.nextTransaction, { h with nextTransaction := h.nextTransaction + 1 })

/-- The definition of a routine. -/
def lookupRoutine (h : Host) (id : TypeId) : Option RoutineDefinition := h.routines.lookup id

/-- Stores a routine under a new identifier and stamp. -/
def createRoutine (h : Host) (d : RoutineDefinition) : TypeId × Host :=
  let (id, h) := h.allocateId
  let (stamp, h) := h.nextStamp
  (id, { h with routines := (id, { d with id, stamp }) :: h.routines })

/-- Replaces the source of a routine; the definition gets a new stamp. A stamp is taken also when
there is no such routine. -/
def replaceSource (h : Host) (id : TypeId) (source : String) : Host :=
  let (stamp, h) := h.nextStamp
  { h with
    routines := h.routines.map fun r =>
      if r.1 = id then (r.1, { r.2 with source, stamp }) else r }

/-- Removes a routine. -/
def dropRoutine (h : Host) (id : TypeId) : Host :=
  { h with routines := h.routines.filter fun r => r.1 ≠ id }

/-- Adds a module for engines that start later. -/
def addModule (h : Host) (m : InitModule) : Host := { h with modules := h.modules ++ [m] }

/-! ### Messages -/

/-- Receives a message. -/
def notice (h : Host) (level : NoticeLevel) (message : String) : Host :=
  { h with notices := h.notices ++ [(level, message)] }

end Host

end StoredRoutine
