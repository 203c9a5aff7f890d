import StoredRoutine.Datum.Basic

/-!
# `StoredRoutine.Trigger`: what a trigger function is told

A trigger fires before, after or instead of an operation on a relation, for each row or once for
the statement. The host describes the event; only a trigger that fires before the operation and
for each row has a result, the row to go on with.
-/

set_option autoImplicit false

namespace StoredRoutine

/-- When a trigger fires. -/
inductive TriggerTime where
  | before | after | instead
  deriving Repr, DecidableEq

/-- How often a trigger fires. -/
inductive TriggerLevel where
  | row | statement
  deriving Repr, DecidableEq

/-- The operation on which a trigger fires. -/
inductive TriggerOperation where
  | insert | update | delete | truncate
  deriving Repr, DecidableEq

/-- The word of a time. -/
def TriggerTime.word : TriggerTime → String
  | .before => "before"
  | .after => "after"
  | .instead => "instead"

/-- The word of a level. -/
def TriggerLevel.word : TriggerLevel → String
  | .row => "row"
  | .statement => "statement"

/-- The word of an operation. -/
def TriggerOperation.word : TriggerOperation → String
  | .insert => "insert"
  | .update => "update"
  | .delete => "delete"
  | .truncate => "truncate"

/-- The relation on which a trigger fires. -/
structure Relation where
  id : TypeId
  name : String
  layout : RowLayout

/-- One firing of a trigger. -/
structure TriggerEvent where
  name : String
  time : TriggerTime
  level : TriggerLevel
  operation : TriggerOperation
  relation : Relation
  /-- The row that is inserted or deleted, or the old row of an update. -/
  row : Option RowValue := none
  /-- The new row of an update. -/
  newRow : Option RowValue := none
  /-- The arguments from the definition of the trigger. -/
  args : List String := []

namespace TriggerEvent

/-- Whether the function decides on the row to go on with. -/
def returnsRow (t : TriggerEvent) : Bool := t.time == .before && t.level == .row

/-- The row that the function may change. -/
def currentRow (t : TriggerEvent) : Option RowValue :=
  if t.operation = .update then t.newRow else t.row

/-- The row before an update. -/
def oldRow (t : TriggerEvent) : Option RowValue :=
  if t.operation = .update then t.row else none

end TriggerEvent

end StoredRoutine
