import StoredRoutine.Script.Control
import StoredRoutine.Script.Table.Basic

/-!
# `StoredRoutine.Script.Heap`: tables, variables, functions and coroutines

Everything that a script can share and change, by identifier.
-/

set_option autoImplicit false

namespace StoredRoutine.Script

/-- A function written in a script, with the cells of the variables around it. -/
structure Closure where
  code : FunctionCode
  outers : Array CellId
  chunk : List Char

/-- Everything that scripts share. -/
structure Heap where
  tables : Array Table := #[]
  cells : Array Value := #[]
  closures : Array Closure := #[]
  threads : Array ThreadState := #[]
  /-- The table of globals. -/
  globals : TableId := ⟨0⟩
  /-- The metatable of strings. -/
  strings : TableId := ⟨0⟩

namespace Heap

/-! ### Tables -/

/-- The table of an identifier. -/
def table (h : Heap) (id : TableId) : Table := h.tables.getD id.index {}

/-- Makes a table. -/
def newTable (h : Heap) (t : Table) : TableId × Heap :=
  (⟨h.tables.size⟩, { h with tables := h.tables.push t })

/-- Changes a table. -/
def modifyTable (h : Heap) (id : TableId) (f : Table → Table) : Heap :=
  { h with tables := h.tables.modify id.index f }

/-- The value of a key, without asking the metatable. -/
def rawGet (h : Heap) (id : TableId) (key : Value) : Value := (h.table id).get key

/-- Sets the value of a key, without asking the metatable. -/
def rawSet (h : Heap) (id : TableId) (key value : Value) : Heap :=
  h.modifyTable id fun t => t.set key value

/-- Takes notice that a key of a table was looked up. -/
def touch (h : Heap) (id : TableId) (key : Value) : Heap :=
  match key with
  | .number (.int n) =>
    if Int64.ofNat (h.table id).shape.hint < n then h.modifyTable id fun t => t.touch key else h
  | _ => h

/-- The length of a table, without asking the metatable. -/
def length (h : Heap) (id : TableId) : Nat × Heap :=
  let (n, t) := (h.table id).length
  (n, h.modifyTable id fun old => { old with shape := t.shape })

/-- Makes a table with the given fields. -/
def tableOf (h : Heap) (fields : List (String × Value)) : TableId × Heap :=
  h.newTable (fields.foldl (fun t f => t.setKey (.ofText f.1) f.2) {})

/-- The global of the given name. -/
def global (h : Heap) (name : String) : Value := (h.table h.globals).getKey (.ofText name)

/-- Sets a global, without asking the metatable. -/
def setGlobal (h : Heap) (name : String) (value : Value) : Heap :=
  h.modifyTable h.globals fun t => t.setKey (.ofText name) value

/-- The metatable of a value. -/
def metatable? (h : Heap) : Value → Option TableId
  | .table id => (h.table id).metatable
  | .string _ => some h.strings
  | _ => none

/-- The handler of an event in the metatable of a value; nil if there is none. -/
def handler (h : Heap) (v : Value) (event : String) : Value :=
  match h.metatable? v with
  | some m => (h.table m).getKey (.ofText event)
  | none => .nil

/-- The name of a value's type, which the metatable of a table may give. -/
def typeLabel (h : Heap) (v : Value) : String :=
  match v with
  | .table _ =>
    match h.handler v "__name" with
    | .string b => Text.display b
    | _ => v.typeName
  | v => v.typeName

/-- The text of a value, apart from the handler that its metatable may have for it. -/
def display (h : Heap) (v : Value) : ByteArray :=
  match v with
  | .table id =>
    match h.handler v "__name" with
    | .string b => b ++ (": " ++ Value.address id.index).toUTF8
    | _ => v.display
  | v => v.display

/-! ### Variables -/

/-- The value of a variable. -/
def read (h : Heap) (cell : CellId) : Value := h.cells.getD cell.index .nil

/-- Sets a variable. -/
def write (h : Heap) (cell : CellId) (value : Value) : Heap :=
  { h with cells := h.cells.setIfInBounds cell.index value }

/-- Makes a variable. -/
def newCell (h : Heap) (value : Value) : CellId × Heap :=
  (⟨h.cells.size⟩, { h with cells := h.cells.push value })

/-- Makes variables with values. -/
def newCells (h : Heap) : List Value → List CellId × Heap
  | [] => ([], h)
  | v :: rest =>
    let (cell, h) := h.newCell v
    let (cells, h) := newCells h rest
    (cell :: cells, h)

/-! ### Functions and coroutines -/

/-- Makes a function. -/
def newClosure (h : Heap) (c : Closure) : ClosureId × Heap :=
  (⟨h.closures.size⟩, { h with closures := h.closures.push c })

/-- Makes a coroutine. -/
def newThread (h : Heap) (body : Value) : ThreadId × Heap :=
  (⟨h.threads.size⟩, { h with threads := h.threads.push (.fresh body) })

/-- What a coroutine is doing. -/
def thread (h : Heap) (id : ThreadId) : ThreadState := h.threads.getD id.index .dead

/-- Sets what a coroutine is doing. -/
def setThread (h : Heap) (id : ThreadId) (s : ThreadState) : Heap :=
  { h with threads := h.threads.setIfInBounds id.index s }

/-- Makes a function outside of all functions, with the values of its variables from outside. -/
def newOutermost (h : Heap) (chunk : List Char) (code : FunctionCode) (values : List Value) :
    Value × Heap :=
  let (cells, h) := h.newCells values
  let (id, h) := h.newClosure { code, outers := cells.toArray, chunk }
  (.closure id, h)

/-- Makes the function that a source is. Its only variable from outside is the table of globals. -/
def newMain (h : Heap) (chunk : List Char) (code : FunctionCode) : Value × Heap :=
  h.newOutermost chunk code [.table h.globals]

end Heap

end StoredRoutine.Script
