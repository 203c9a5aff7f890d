import StoredRoutine.Engine.Invoke
import StoredRoutine.Trigger

/-!
# `StoredRoutine.Engine.Triggers`: calling trigger functions

A trigger function finds the event in the global `trigger`, which is gone again when the call is
over. What it leaves in the field `row` is the row to go on with, if the trigger has a result at
all: nil skips the operation, a row that was not touched is that of the host itself, and any other
tuple or table is converted to the layout of the relation.
-/

set_option autoImplicit false

namespace StoredRoutine

open Script (TableId Value)

namespace Serving

/-- The global that describes the event. -/
def triggerGlobal : String := "trigger"

/-- The table that describes a relation. It is made once for each relation and shared by all
events. -/
def relationTable (r : Relation) : Serving Value := do
  match (← get).relations.lookup r.id with
  | some id => return .table id
  | none =>
    modifyGet fun e =>
      let positions := r.layout.attributes.zipIdx.map fun a => (a.1.name, Value.ofNat (a.2 + 1))
      let (attributes, heap) := e.heap.tableOf positions
      let (id, heap) := heap.tableOf
        [("name", .ofText r.name), ("oid", .ofNat r.id.toNat), ("attributes", .table attributes)]
      (.table id, { e with heap, relations := (r.id, id) :: e.relations })

/-- A field with a new tuple of a row. -/
def rowField (name : String) (row : Option RowValue) (state : TupleState) :
    Serving (List (String × Value) × Option TupleId) := do
  match row with
  | none => return ([], none)
  | some row =>
    let t ← newTuple row state
    return ([(name, ← showTuple t)], some t)

/-- Publishes an event. Answers the table and the tuple with which its field `row` starts. -/
def publishEvent (t : TriggerEvent) : Serving (TableId × Option TupleId) := do
  let relation ← relationTable t.relation
  let forRow (row : Option RowValue) : Option RowValue := row.filter fun _ => t.level == .row
  let (rowFields, tuple) ← rowField "row" (forRow t.currentRow) .writable
  let (oldFields, _) ← rowField "old" (forRow t.oldRow) .readOnly
  let fields :=
    [("name", Value.ofText t.name), ("when", .ofText t.time.word), ("level", .ofText t.level.word),
      ("operation", .ofText t.operation.word), ("relation", relation)] ++ rowFields ++ oldFields
  modifyGet fun e =>
    let (id, heap) := e.heap.tableOf fields
    ((id, tuple), { e with heap := heap.setGlobal triggerGlobal (.table id) })

/-- Converts a tuple or a table to the layout of a relation. -/
def toRow (v : Value) (layout : RowLayout) : Serving RowValue := do
  let v ← ofValue v
  converting fun b => Marshal.toRow b v layout

/-- Whether a tuple is the one that the event started with, as it was. -/
def isUntouched (e : Engine) (start : Option TupleId) (id : TupleId) : Bool :=
  decide (start = some id) && (e.tuple? id).all fun t => t.state != .modified

/-- The failure for a value that is no row. -/
def noRow (kind : String) : Failure :=
  .conversion s!"trigger row must be a tuple, a table or nil, not {kind}"

/-- The row that a trigger function has left. -/
def rowLeft (t : TriggerEvent) (table : TableId) (start : Option TupleId) :
    Serving (Option RowValue) := do
  if !t.returnsRow then return none
  let e ← get
  let v := e.heap.rawGet table (.ofText "row")
  match v with
  | .nil => return none
  | .table _ => return some (← toRow v t.relation.layout)
  | .object _ id =>
    match e.object? id with
    | some (.tuple tuple) =>
      if isUntouched e start tuple then return t.currentRow
      else return some (← toRow v t.relation.layout)
    | _ => throw (noRow v.kindName)
  | v => throw (noRow v.kindName)

/-- Runs a trigger function. -/
def runTrigger (t : TriggerEvent) (r : CompiledRoutine) : Serving (Option RowValue) := do
  let (table, start) ← publishEvent t
  let _ ← runRaising r.function (t.args.map Value.ofText)
  rowLeft t table start

/-- Runs a trigger function and takes the event back, whatever has happened. -/
def callTrigger (t : TriggerEvent) (r : CompiledRoutine) : Serving (Option RowValue) := do
  let result ← attempt (runTrigger t r)
  modify fun e => { e with heap := e.heap.setGlobal triggerGlobal .nil }
  ofOutcome result

end Serving

/-- Fires a trigger. -/
def Engine.fire (e : Engine) (id : TypeId) (t : TriggerEvent) :
    Outcome (Option RowValue) × Engine :=
  let ((result, ()), e) :=
    e.invoke .trigger id () fun r => Engine.plainWork (Serving.callTrigger t r)
  (result, e)

end StoredRoutine
