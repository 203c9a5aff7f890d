import StoredRoutine.Host.Statement
import StoredRoutine.Lifetime.Arena
import StoredRoutine.Lifetime.Cleanup
import StoredRoutine.Script.Value

/-!
# `StoredRoutine.Engine.Objects`: what scripts hold of the database

Scripts get objects: tuples, the rows of a result, plans and cursors. A tuple reaches its layout
through a handle of the arena, so it can outlive the layout; several objects may show one tuple. A
cursor is registered for the end of the transaction, which closes it. An iterator over the rows of
a cursor is an object too, though scripts see only the function that asks it for the next row.
-/

set_option autoImplicit false

namespace StoredRoutine

open Script (ObjectId)

/-- Names a tuple. -/
structure TupleId where
  index : Nat
  deriving Repr, DecidableEq

/-- Whether a script may change a tuple, and whether one has. -/
inductive TupleState where
  | readOnly
  | writable
  | modified
  deriving Repr, DecidableEq

/-- A row that scripts see. -/
structure Tuple where
  handle : HandleId
  values : Row
  state : TupleState

/-- The rows of a result. -/
structure ResultSet where
  handle : HandleId
  rows : Array Row
  /-- The tuples made so far, by the place of the row. -/
  tuples : List (Nat × TupleId) := []

/-- A statement with the types of its parameters. -/
structure Plan where
  sql : String
  argTypes : List TypeId
  saved : Bool := false

/-- An open portal, as scripts see it. -/
structure Cursor where
  name : String
  closed : Bool := false
  /-- The entry in the registry, until the cursor is closed. -/
  cleanup : Option CleanupId

/-- Goes through the rows of a cursor. -/
structure RowIterator where
  cursor : Cursor
  /-- The rows that were fetched but not asked for yet. -/
  queue : List Row := []
  /-- The handle of the layout, once there was a row. -/
  handle : Option HandleId := none
  done : Bool := false

/-- An object of the engine. -/
inductive Object where
  | tuple (id : TupleId)
  | rows (set : ResultSet)
  | plan (p : Plan)
  | cursor (c : Cursor)
  | iterator (i : RowIterator)

/-- The cursor of an object. -/
def Object.mapCursor (f : Cursor → Cursor) : Object → Object
  | .cursor c => .cursor (f c)
  | .iterator i => .iterator { i with cursor := f i.cursor }
  | o => o

/-- Changes an object that is an iterator. -/
def Object.mapIterator (f : RowIterator → RowIterator) : Object → Object
  | .iterator i => .iterator (f i)
  | o => o

/-- Names the call of a set-returning routine. -/
structure ExecutionId where
  number : Nat
  deriving Repr, DecidableEq

/-- The call of a set-returning routine that waits to be resumed. -/
structure Execution where
  thread : Script.ThreadId
  cleanup : CleanupId

/-- What the end of a transaction does. -/
inductive CleanupAction where
  /-- The cursor of an object counts as closed. -/
  | closeCursor (object : ObjectId)
  | dropExecution (id : ExecutionId)

end StoredRoutine
