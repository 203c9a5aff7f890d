import StoredRoutine.Engine.Objects
import StoredRoutine.Host.Query
import StoredRoutine.Marshal.ToRelational
import StoredRoutine.Routine.Compiled
import StoredRoutine.Script.Heap

/-!
# `StoredRoutine.Engine.Basic`: the state of an engine

An engine serves one host. It holds everything that outlives a call: what scripts share, the
objects they hold, compiled routines, calls that wait, and the bookkeeping of layouts and
cleanups. Whatever may fail on behalf of a script runs in `Serving`, in which a failure keeps what
was done before it.
-/

set_option autoImplicit false

namespace StoredRoutine

open Script (Heap ObjectId ObjectKind TableId Value)

/-- How many instructions are executed between two looks at the time. -/
def instructionsBetweenLooks : Nat := 1000

/-- What the time limit of calls is measured with. -/
structure Clock where
  /-- The instructions until the next look at the time. -/
  untilLook : Nat := instructionsBetweenLooks
  /-- The steps that are left to the call in progress, if there is a limit. -/
  left : Option Nat := none

/-- An engine. -/
structure Engine where
  options : Options
  host : Host
  types : TypeCache := {}
  arena : Arena := .empty
  cleanups : CleanupRegistry CleanupAction := {}
  heap : Heap
  objects : Array Object := #[]
  tuples : Array Tuple := #[]
  routines : RoutineCache := {}
  /-- The calls of set-returning routines that wait. -/
  executions : List (ExecutionId × Execution) := []
  /-- How many calls of set-returning routines were started. -/
  started : Nat := 0
  /-- The tables that describe relations to trigger functions. -/
  relations : List (TypeId × TableId) := []
  /-- The metatable of reports. -/
  reports : TableId
  /-- The function that every set-returning coroutine runs. -/
  setBody : Value
  /-- After a failed rollback the engine refuses all further calls. -/
  poisoned : Bool := false
  clock : Clock := {}

/-- A computation for a script. -/
abbrev Serving : Type → Type := ExceptT Failure (StateM Engine)

namespace Engine

/-- What conversions need to know. -/
def border (e : Engine) : Border :=
  { catalog := e.host.catalog, hasPortal := e.host.hasPortal, options := e.options }

/-- The tuple of an identifier. -/
def tuple? (e : Engine) (id : TupleId) : Option Tuple := e.tuples[id.index]?

/-- The object of an identifier. -/
def object? (e : Engine) (id : ObjectId) : Option Object := e.objects[id.index]?

/-- Changes an object. -/
def modifyObject (e : Engine) (id : ObjectId) (f : Object → Object) : Engine :=
  { e with objects := e.objects.modify id.index f }

/-- Makes an object. -/
def addObject (e : Engine) (o : Object) : ObjectId × Engine :=
  (⟨e.objects.size⟩, { e with objects := e.objects.push o })

/-- The layout of a tuple, unless it has been released. -/
def layoutOf? (e : Engine) (t : Tuple) : Option RowLayout := e.arena.layout? t.handle

/-- The row of a tuple, unless its layout has been released. -/
def rowOf? (e : Engine) (t : Tuple) : Option RowValue :=
  (e.layoutOf? t).map fun layout => ⟨layout, t.values⟩

end Engine

namespace Serving

variable {α : Type}

/-- The failure for an argument of the wrong type. -/
def mismatch : Failure := .internal "argument of the wrong type"

/-- Does something with the host. -/
def onHost (f : Host → Outcome α × Host) : Serving α := fun e =>
  let (result, host) := f e.host
  (result, { e with host })

/-- Converts something. -/
def converting (f : Border → Resolving α) : Serving α := fun e =>
  let (result, types) := f e.border e.types
  (result, { e with types })

/-- Goes on with an outcome. -/
def ofOutcome (o : Outcome α) : Serving α := liftExcept o

/-! ### Layouts and tuples -/

/-- Makes a handle of a layout. -/
def allocate (layout : RowLayout) : Serving HandleId :=
  modifyGet fun e =>
    let (id, arena) := e.arena.allocate layout
    (id, { e with arena })

/-- Makes a tuple that shares a handle. -/
def tupleWith (handle : HandleId) (values : Row) (state : TupleState) : Serving TupleId :=
  modifyGet fun e =>
    (⟨e.tuples.size⟩,
      { e with arena := e.arena.retain handle, tuples := e.tuples.push { handle, values, state } })

/-- Makes a tuple with a handle of its own. -/
def newTuple (row : RowValue) (state : TupleState) : Serving TupleId := do
  let handle ← allocate row.layout
  modifyGet fun e =>
    (⟨e.tuples.size⟩, { e with tuples := e.tuples.push { handle, values := row.values, state } })

/-- Makes an object. -/
def newObject (kind : ObjectKind) (o : Object) : Serving Value := do
  let id ← modifyGet fun e => e.addObject o
  return .object kind id

/-- Makes an object that shows a tuple. -/
def showTuple (id : TupleId) : Serving Value := newObject .tuple (.tuple id)

/-! ### Cursors -/

/-- Makes an object with a cursor on an open portal, and registers it for the end of the
transaction. -/
def attachCursor (name : String) (wrap : Cursor → Object) : Serving ObjectId :=
  modifyGet fun e =>
    let (cleanup, cleanups) := e.cleanups.register (.closeCursor ⟨e.objects.size⟩)
    ({ e with cleanups }).addObject (wrap { name, cleanup := some cleanup })

/-- Makes a cursor on an open portal. -/
def newCursor (name : String) : Serving Value := do
  return .object .cursor (← attachCursor name .cursor)

end Serving

end StoredRoutine
