import StoredRoutine.Engine.Rows

/-!
# `StoredRoutine.Engine.Queries`: cursors, iterators over rows, statements and plans

A cursor that was closed, by a script or by the end of a transaction, refuses everything but being
closed again. An iterator fetches rows a batch at a time. When there are none left it closes its
cursor and answers nil from then on.

A script runs a statement by its text, or prepares a plan with types for its parameters. The
arguments of a plan are the values at `1, 2, …` of a table, converted to those types.
-/

set_option autoImplicit false

namespace StoredRoutine.Serving

open Script (ObjectId Value)

/-- The cursor that a method was called on, which has to be open. -/
def openCursor (id : ObjectId) : Serving Cursor := do
  match (← get).object? id with
  | some (.cursor c) =>
    if c.closed then throw (.runtime { message := s!"cursor \"{c.name}\" is closed" }) else return c
  | _ => throw mismatch

/-- Fetches rows; nil if there are none. -/
def fetchRows (id : ObjectId) (direction : FetchDirection) (count : Int64) : Serving Value := do
  let c ← openCursor id
  let rows ← onHost fun h => h.fetch c.name direction count
  if rows.rows.isEmpty then return .nil else newResult rows

/-- Moves a cursor. -/
def moveCursor (id : ObjectId) (direction : FetchDirection) (count : Int64) : Serving Unit := do
  let c ← openCursor id
  onHost fun h => h.moveCursor c.name direction count

/-- Closes the cursor of an object: it is marked, leaves the registry, and its portal is closed. -/
def closePortal (id : ObjectId) (c : Cursor) : Serving Unit := do
  if c.closed then return
  modify fun e =>
    let e := e.modifyObject id
      (Object.mapCursor fun c => { c with closed := true, cleanup := none })
    match c.cleanup with
    | some cleanup => { e with cleanups := (e.cleanups.unregister cleanup).2 }
    | none => e
  onHost fun h => h.closeCursor c.name

/-- Closes a cursor; doing so again has no effect. -/
def closeCursor (id : ObjectId) : Serving Unit := do
  match (← get).object? id with
  | some (.cursor c) => closePortal id c
  | _ => throw mismatch

/-- The direction for a position, which may be relative to the row in front of the cursor. -/
def positionDirection (relative : Bool) : FetchDirection :=
  if relative then .relative else .absolute

/-! ### Iterators -/

/-- Makes the function that goes through the rows of an open portal. -/
def newIterator (portal : String) : Serving Value := do
  let id ← attachCursor portal fun c => .iterator { cursor := c }
  return .service (.nextRow id)

/-- Changes an iterator. -/
def modifyIterator (id : ObjectId) (f : RowIterator → RowIterator) : Serving Unit :=
  modify fun e => e.modifyObject id (.mapIterator f)

/-- There are no rows left: the handle is given up and the cursor closed, whether the portal is
still there or not. -/
def finishIterator (id : ObjectId) (i : RowIterator) : Serving Unit := do
  modifyIterator id fun i => { i with done := true, handle := none }
  modify fun e =>
    match i.handle with
    | some handle => { e with arena := e.arena.release handle }
    | none => e
  tryCatch (closePortal id i.cursor) fun _ => pure ()

/-- The handle of the layout of a batch, which the first one makes. -/
def iteratorHandle (i : RowIterator) (layout : RowLayout) : Serving HandleId :=
  match i.handle with
  | some handle => pure handle
  | none => allocate layout

/-- The next row of an iterator; nil at the end. -/
def nextRow (id : ObjectId) : Serving Value := do
  match (← get).object? id with
  | some (.iterator i) =>
    match i.queue, i.handle with
    | row :: rest, some handle =>
      modifyIterator id fun i => { i with queue := rest }
      showTuple (← tupleWith handle row .readOnly)
    | _, _ =>
      if i.done then return .nil
      let size := Int64.ofNat (← get).options.fetchSize
      let batch ← onHost fun h => h.fetch i.cursor.name .forward size
      match batch.rows with
      | [] =>
        finishIterator id i
        return .nil
      | row :: rest =>
        let handle ← iteratorHandle i batch.layout
        modifyIterator id fun i => { i with handle := some handle, queue := rest }
        showTuple (← tupleWith handle row .readOnly)
  | _ => throw mismatch

end StoredRoutine.Serving

namespace StoredRoutine.Serving

open Script (ObjectId TableId Value)

/-- The types of the parameters of a plan, by name. -/
def paramTypes (types : TableId) : Serving (List TypeId) := do
  let length ← modifyGet fun e =>
    let (n, heap) := e.heap.length types
    (n, { e with heap })
  let e ← get
  (List.range' 1 length).mapM fun i => do
    let name ← ofOutcome (Arguments.text (e.heap.rawGet types (.ofNat i)))
    match e.host.typeId? name with
    | some id => return id
    | none => throw (.invalidArgument s!"invalid type to plan: {name}")

/-- Makes a plan. -/
def newPlan (sql : String) (types : Option TableId) : Serving Value := do
  let argTypes ←
    match types with
    | some types => paramTypes types
    | none => pure []
  newObject .plan (.plan { sql, argTypes })

/-- The plan that a method was called on. -/
def planOf (id : ObjectId) : Serving Plan := do
  match (← get).object? id with
  | some (.plan p) => return p
  | _ => throw mismatch

/-- The arguments of a plan as its parameters. A plan without parameters asks for none. -/
def bindParams (p : Plan) (args : Option TableId) : Serving Row :=
  if p.argTypes.isEmpty then pure []
  else
    match args with
    | none => throw (.invalidArgument "plan arguments must be a table")
    | some args =>
      p.argTypes.zipIdx.mapM fun type => do
        toDatum ((← get).heap.rawGet args (.ofNat (type.2 + 1))) type.1 (-1)

/-- Runs a statement. -/
def execute (sql : String) (params : Row) (readOnly : Bool) (limit : Nat) : Serving Value := do
  resultOf (← onHost fun h => h.execute sql params readOnly limit)

/-- Opens a cursor on a statement and answers the name of its portal. -/
def openPortal (sql : String) (params : Row) (name : Option String) (readOnly : Bool) :
    Serving String :=
  onHost fun h => h.openCursor sql params name readOnly

/-- The cursor on an open portal; nil if there is none of that name. -/
def findCursor (name : String) : Serving Value := do
  if (← get).host.hasPortal name then newCursor name else return .nil

/-- Marks a plan as saved. -/
def savePlan (id : ObjectId) : Serving Unit :=
  modify fun e =>
    e.modifyObject id fun
      | .plan p => .plan { p with saved := true }
      | o => o

end StoredRoutine.Serving
