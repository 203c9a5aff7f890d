import StoredRoutine.Engine.Arguments
import StoredRoutine.Engine.Exchange

/-!
# `StoredRoutine.Engine.Rows`: tuples and results

The columns of a tuple are converted when a script reads or sets them. A tuple whose layout has
been released reads as nil everywhere. The rows of a result are numbered from one; each becomes a
tuple when it is asked for first, and all of them share the handle of the layout.
-/

set_option autoImplicit false

namespace StoredRoutine

open Script (Value)

namespace Serving

/-! ### Tuples -/

/-- Reads a column of a tuple; nil if there is no such column. -/
def readColumn (t : Tuple) (name : String) : Serving Value := do
  match (← get).layoutOf? t with
  | none => return .nil
  | some layout =>
    match layout.position? name with
    | none => return .nil
    | some i => ofDatum (t.values[i]?).join ((layout.attributes[i]?).elim TypeId.record (·.typeId))

/-- Sets a column of a tuple. -/
def writeColumn (id : TupleId) (t : Tuple) (name : String) (v : Value) : Serving Unit := do
  if t.state = .readOnly then throw (.runtime { message := "tuple is read-only" })
  match (← get).layoutOf? t with
  | none => throw Marshal.lostLayout
  | some layout =>
    match layout.position? name with
    | none => throw (.fieldNotFound name)
    | some i =>
      let column := (layout.attributes[i]?).getD ⟨name, TypeId.record, -1⟩
      let d ← toDatum v column.typeId column.typeMod
      modify fun e =>
        { e with
          tuples := e.tuples.modify id.index fun t =>
            { t with values := t.values.set i d, state := .modified } }

/-- The text of a column. A value without a text is shown by its kind. -/
def columnText (a : Attribute) : Option Datum → Serving String
  | none => pure ""
  | some d =>
    tryCatch
      (do
        let _ ← converting fun b => Resolving.descriptor b.catalog a.typeId
        ofOutcome d.toText)
      fun _ => pure ("<" ++ d.kindName ++ ">")

/-- The text of a tuple. -/
def tupleText (t : Tuple) : Serving String := do
  match (← get).layoutOf? t with
  | none => return "(lost tuple)"
  | some layout =>
    let columns ← (layout.attributes.zip t.values).mapM fun c => columnText c.1 c.2
    return "(" ++ ",".intercalate columns ++ ")"

/-! ### Results -/

/-- Makes the rows of a result. -/
def newResult (rows : RowSet) : Serving Value := do
  let handle ← allocate rows.layout
  newObject .rows (.rows { handle, rows := rows.rows.toArray })

/-- What a statement hands to a script: its rows, if it is a query and there are any. -/
def resultOf (r : QueryResult) : Serving Value :=
  match r.rows with
  | some rows => if r.kind = .select ∧ !rows.rows.isEmpty then newResult rows else pure .nil
  | none => pure .nil

/-- The tuple of a row of a result, by its place. -/
def rowAt (id : Script.ObjectId) (set : ResultSet) (i : Nat) : Serving Value := do
  match set.tuples.lookup i, set.rows[i]? with
  | some t, _ => showTuple t
  | none, none => return .nil
  | none, some values =>
    let t ← tupleWith set.handle values .readOnly
    modify fun e =>
      e.modifyObject id fun
        | .rows s => .rows { s with tuples := (i, t) :: s.tuples }
        | o => o
    showTuple t

/-! ### Fields of objects -/

/-- Reads a field of a tuple or a row of a result. -/
def readField (id : Script.ObjectId) (key : Value) : Serving Value := do
  let e ← get
  match e.object? id with
  | some (.tuple t) =>
    let name ← ofOutcome (Arguments.text key)
    match e.tuple? t with
    | some tuple => readColumn tuple name
    | none => return .nil
  | some (.rows set) =>
    match key with
    | .number n =>
      match n.toInt64? with
      | some i => if 1 ≤ i then rowAt id set (i.toInt.toNat - 1) else return .nil
      | none => return .nil
    | _ => return .nil
  | _ => throw mismatch

/-- Sets a field of a tuple. -/
def writeField (id : Script.ObjectId) (key value : Value) : Serving Unit := do
  let e ← get
  match e.object? id with
  | some (.tuple t) =>
    let name ← ofOutcome (Arguments.text key)
    match e.tuple? t with
    | some tuple => writeColumn t tuple name value
    | none => throw mismatch
  | _ => throw mismatch

/-- The number of rows of a result. -/
def countRows (id : Script.ObjectId) : Serving Nat := do
  match (← get).object? id with
  | some (.rows set) => return set.rows.size
  | _ => throw mismatch

/-- The text of an object. -/
def objectText (id : Script.ObjectId) : Serving String := do
  let e ← get
  match e.object? id with
  | some (.tuple t) => (e.tuple? t).elim (throw mismatch) tupleText
  | some (.rows set) => return s!"result set: {set.rows.size} rows"
  | some (.plan p) => return "plan: " ++ p.sql
  | some (.cursor c) => return "cursor: " ++ c.name
  | _ => throw mismatch

end Serving

end StoredRoutine
