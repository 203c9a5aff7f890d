import StoredRoutine.Datum.Basic

/-!
# `StoredRoutine.Host.Statement`: tables and what statements do to them

The host keeps named tables and runs statements that were registered beforehand. What a statement
does is data, an `Action`, so that everything a statement can change is visible here: the rows of
one table.
-/

set_option autoImplicit false

namespace StoredRoutine

/-- A row as tables keep it: one value for each column. -/
abbrev Row : Type := List (Option Datum)

/-- Rows of one layout. -/
structure RowSet where
  layout : RowLayout
  rows : List Row

/-- The kind of a statement. -/
inductive StatementKind where
  | select | insert | update | delete | utility
  deriving Repr, DecidableEq

/-- What a statement answers. -/
structure QueryResult where
  kind : StatementKind
  /-- The number of rows processed. -/
  processed : Nat
  /-- The rows, for a statement that returns rows. -/
  rows : Option RowSet

/-- The named tables. Of two with one name the first counts. -/
abbrev Tables : Type := List (String × RowSet)

/-- What a registered statement does. -/
inductive Action where
  /-- Returns every row of a table. -/
  | selectAll (table : String)
  /-- Appends the parameters to a table as a row. -/
  | insertParams (table : String)
  /-- Removes every row of a table. -/
  | deleteAll (table : String)
  /-- Removes the rows whose value in a column is the first parameter. -/
  | deleteEqual (table : String) (column : Nat)
  /-- Answers always the same. -/
  | constant (result : QueryResult)
  /-- Returns the parameters as one row of the given columns. -/
  | echoParams (attributes : List Attribute)

/-- A registered statement. Its kind decides whether a read-only execution may run it. -/
structure Statement where
  kind : StatementKind
  action : Action

/-- A failure of the host with an SQLSTATE. -/
def hostFailure (code message : String) : Failure := .host { message, code := some code }

namespace Tables

/-- The failure for a table that does not exist. -/
def missing (name : String) : Failure :=
  hostFailure "42P01" s!"relation \"{name}\" does not exist"

/-- The failure for a row of the wrong length. -/
def wrongArity (values columns : Nat) : Failure :=
  hostFailure "42601" s!"INSERT has {values} values for {columns} columns"

/-- The table of the given name. -/
def table (name : String) (ts : Tables) : Outcome RowSet :=
  match ts.lookup name with
  | some t => .ok t
  | none => .error (missing name)

/-- Replaces the rows of a table. -/
def setRows (name : String) (rows : List Row) (ts : Tables) : Tables :=
  ts.map fun t => if t.1 = name then (t.1, { t.2 with rows }) else t

/-- Adds a table without rows; an older one of the same name is gone. -/
def define (name : String) (layout : RowLayout) (ts : Tables) : Tables :=
  (name, { layout, rows := [] }) :: ts.filter fun t => t.1 ≠ name

/-- Appends a row. -/
def insert (name : String) (row : Row) (ts : Tables) : Outcome Tables := do
  let t ← table name ts
  if row.length = t.layout.length then return setRows name (t.rows ++ [row]) ts
  else throw (wrongArity row.length t.layout.length)

/-- Removes the rows with a property, and says how many there were. -/
def delete (name : String) (p : Row → Bool) (ts : Tables) : Outcome (Nat × Tables) := do
  let t ← table name ts
  let kept := t.rows.filter fun r => !p r
  return (t.rows.length - kept.length, setRows name kept ts)

/-- Whether the value in a column is the first parameter; a NULL equals a NULL, and without a
parameter nothing is equal. -/
def columnEquals (column : Nat) (params : Row) (row : Row) : Bool :=
  match row[column]?, params.head? with
  | some value, some param => Datum.sameAll [value] [param]
  | _, _ => false

/-- Runs an action. -/
def run (action : Action) (params : Row) (ts : Tables) : Outcome (QueryResult × Tables) :=
  match action with
  | .selectAll name => do
    let t ← table name ts
    return ({ kind := .select, processed := t.rows.length, rows := some t }, ts)
  | .insertParams name => do
    let ts ← insert name params ts
    return ({ kind := .insert, processed := 1, rows := none }, ts)
  | .deleteAll name => do
    let (processed, ts) ← delete name (fun _ => true) ts
    return ({ kind := .delete, processed, rows := none }, ts)
  | .deleteEqual name column => do
    let (processed, ts) ← delete name (columnEquals column params) ts
    return ({ kind := .delete, processed, rows := none }, ts)
  | .constant result => .ok (result, ts)
  | .echoParams attributes =>
    .ok
      ({ kind := .select, processed := 1,
         rows := some { layout := .anonymous attributes, rows := [params] } }, ts)

end Tables

end StoredRoutine
