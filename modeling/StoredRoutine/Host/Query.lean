import StoredRoutine.Host.Basic

/-!
# `StoredRoutine.Host.Query`: statements, cursors and savepoints

Every operation answers an outcome and the host after it. A savepoint remembers the tables and
which portals are open; rolling back restores the tables and closes the portals that were opened
since. Only the innermost savepoint can be released or rolled back.
-/

set_option autoImplicit false

namespace StoredRoutine.Host

/-! ### Failures -/

/-- A statement text that was never registered. -/
def unknownStatement (sql : String) : Failure :=
  hostFailure "42601" s!"syntax error at or near \"{sql}\""

/-- A statement that changes data where only reading is allowed. -/
def readOnlyExecution : Failure :=
  hostFailure "0A000" "statement is not allowed in a read-only execution"

/-- A cursor name that is taken. -/
def cursorInUse (name : String) : Failure :=
  hostFailure "42P03" s!"cursor \"{name}\" already in use"

/-- A cursor on a statement without rows. -/
def cursorWithoutRows : Failure :=
  hostFailure "42P11" "cannot open a cursor on a statement that returns no rows"

/-- A cursor name that no portal has. -/
def noSuchCursor (name : String) : Failure :=
  hostFailure "34000" s!"cursor \"{name}\" does not exist"

/-- A savepoint that is not the innermost one. -/
def notInnermost (id : Nat) : Failure :=
  .host { message := s!"savepoint {id} is not the innermost one" }

/-- A rollback that was made to fail. -/
def rollbackFailure : Failure := hostFailure "XX000" "could not roll back to savepoint"

/-! ### Statements -/

/-- Runs a registered statement. Its text is noted first, whatever happens then. -/
def run (h : Host) (sql : String) (params : Row) (readOnly : Bool) : Outcome QueryResult × Host :=
  let h := { h with executed := h.executed ++ [sql] }
  match h.failing.lookup sql with
  | some report => (.error (.host report), h)
  | none =>
    match h.statements.lookup sql with
    | none => (.error (unknownStatement sql), h)
    | some s =>
      if readOnly ∧ s.kind ≠ .select then (.error readOnlyExecution, h)
      else
        match h.tables.run s.action params with
        | .error f => (.error f, h)
        | .ok (result, tables) => (.ok result, { h with tables })

/-- Cuts the rows of a result to a limit; 0 stands for none. -/
def limitRows (limit : Nat) (r : QueryResult) : QueryResult :=
  match r.rows with
  | some rows =>
    if 0 < limit ∧ limit < rows.rows.length then
      { r with processed := limit, rows := some { rows with rows := rows.rows.take limit } }
    else r
  | none => r

/-- Runs a statement and limits its rows. -/
def execute (h : Host) (sql : String) (params : Row) (readOnly : Bool) (limit : Nat) :
    Outcome QueryResult × Host :=
  let (result, h) := h.run sql params readOnly
  (result.map (limitRows limit), h)

/-! ### Cursors -/

/-- The open portal of the given name. -/
def portal? (h : Host) (name : String) : Option Portal := h.portals.lookup name

/-- Whether a portal of the given name is open. -/
def hasPortal (h : Host) (name : String) : Bool := (h.portal? name).isSome

/-- Enters a portal; an older one of the same name is gone. -/
def setPortal (h : Host) (name : String) (p : Portal) : Host :=
  { h with portals := (name, p) :: h.portals.filter fun q => q.1 ≠ name }

/-- The name of the portal to be opened: the one asked for, or one made from the next number. -/
def portalName (h : Host) (name : Option String) : String × Host :=
  match name with
  | some name => (name, h)
  | none => (s!"<unnamed portal {h.nextNumber}>", { h with nextNumber := h.nextNumber + 1 })

/-- Runs a statement and opens a cursor before its first row. Answers the name of the cursor. -/
def openCursor (h : Host) (sql : String) (params : Row) (name : Option String) (readOnly : Bool) :
    Outcome String × Host :=
  match name.filter h.hasPortal with
  | some taken => (.error (cursorInUse taken), h)
  | none =>
    match h.run sql params readOnly with
    | (.error f, h) => (.error f, h)
    | (.ok result, h) =>
      match result.rows with
      | none => (.error cursorWithoutRows, h)
      | some rows =>
        let (name, h) := h.portalName name
        (.ok name, h.setPortal name { rows, position := 0 })

/-- Fetches rows from a cursor. -/
def fetch (h : Host) (name : String) (direction : FetchDirection) (count : Int64) :
    Outcome RowSet × Host :=
  match h.portal? name with
  | none => (.error (noSuchCursor name), h)
  | some p =>
    let (rows, moved) := p.fetch direction count
    let portals := h.portals.map fun q => if q.1 = name then (q.1, moved) else q
    (.ok { layout := p.rows.layout, rows }, { h with portals })

/-- Moves a cursor without returning rows. -/
def moveCursor (h : Host) (name : String) (direction : FetchDirection) (count : Int64) :
    Outcome Unit × Host :=
  let (result, h) := h.fetch name direction count
  (result.map fun _ => (), h)

/-- Closes a cursor. -/
def closeCursor (h : Host) (name : String) : Outcome Unit × Host :=
  if h.hasPortal name then (.ok (), { h with portals := h.portals.filter fun q => q.1 ≠ name })
  else (.error (noSuchCursor name), h)

/-! ### Savepoints -/

/-- Starts a savepoint and answers its number. -/
def beginSavepoint (h : Host) : Nat × Host :=
  let id := h.nextNumber
  let s : Savepoint := { id, tables := h.tables, portals := h.portals.map (·.1) }
  (id, { h with nextNumber := id + 1, savepoints := s :: h.savepoints })

/-- Ends a savepoint and keeps what was done since. -/
def releaseSavepoint (h : Host) (id : Nat) : Outcome Unit × Host :=
  match h.savepoints with
  | s :: rest =>
    if s.id = id then (.ok (), { h with savepoints := rest }) else (.error (notInnermost id), h)
  | [] => (.error (notInnermost id), h)

/-- Ends a savepoint and undoes what was done since. -/
def rollbackSavepoint (h : Host) (id : Nat) : Outcome Unit × Host :=
  if h.failRollback then (.error rollbackFailure, { h with failRollback := false })
  else
    match h.savepoints with
    | s :: rest =>
      if s.id = id then
        (.ok (),
          { h with
            savepoints := rest
            tables := s.tables
            portals := h.portals.filter fun q => s.portals.contains q.1 })
      else (.error (notInnermost id), h)
    | [] => (.error (notInnermost id), h)

/-! ### Savepoints that an engine makes -/

/-- The failure of an operation that was made to fail. -/
def injected (what : String) : Failure := .host { message := s!"injected {what} failure" }

/-- Starts a savepoint for a protected call, unless the host was told to fail. -/
def beginProtected (h : Host) : Outcome Nat × Host :=
  if h.failBegin then (.error (injected "begin"), { h with failBegin := false })
  else
    let (id, h) := h.beginSavepoint
    (.ok id, h)

/-- Releases the savepoint of a protected call, unless the host was told to fail. -/
def releaseProtected (h : Host) (id : Nat) : Outcome Unit × Host :=
  if h.failRelease then (.error (injected "release"), { h with failRelease := false })
  else h.releaseSavepoint id

end StoredRoutine.Host
