import StoredRoutine.Engine.Exchange

/-!
# `StoredRoutine.Engine.Raised`: failures and what scripts raise

A script raises any value. What it means as a failure depends on the value: a failure that a
service raised is itself, a table is read as a report, and anything else becomes the message of a
runtime failure. The other way, a failure that a protected call has caught is handed to the script
as a report table, whose text is its message.
-/

set_option autoImplicit false

namespace StoredRoutine

open Script (Heap TableId Value)

namespace Engine

/-- The text of a field of a table, if it is a string or a number. -/
def textField? (h : Heap) (id : TableId) (name : String) : Option String :=
  (h.rawGet id (.ofText name)).stringForm?.map Text.display

/-- The report that a table is read as. -/
def reportOf (h : Heap) (id : TableId) : Report :=
  { message := (textField? h id "message").getD "no exception data"
    detail := textField? h id "detail"
    hint := textField? h id "hint"
    context := textField? h id "context"
    code := textField? h id "sqlerrcode" }

/-- The failure that a raised value stands for. -/
def failureOf (h : Heap) : Value → Failure
  | .failure f => f
  | .string b => .runtime { message := Text.display b }
  | .number n => .runtime { message := numberText n }
  | .table id => .runtime (reportOf h id)
  | .nil => .runtime { message := "nil error value" }
  | v => .runtime { message := s!"(error object is a {v.kindName} value)" }

/-- The fields of a report, as scripts see them. -/
def reportFields (r : Report) : List (String × Value) :=
  let field (name : String) (text : Option String) : List (String × Value) :=
    (text.map fun t => (name, Value.ofText t)).toList
  ("message", .ofText r.message) :: field "detail" r.detail ++ field "hint" r.hint
    ++ field "context" r.context ++ field "sqlerrcode" r.code

end Engine

namespace Serving

/-- Makes a report table. -/
def reportTable (r : Report) : Serving Value :=
  modifyGet fun e =>
    let (id, heap) := e.heap.tableOf (Engine.reportFields r)
    let heap := heap.modifyTable id fun t => { t with metatable := some e.reports }
    (.table id, { e with heap })

end Serving

end StoredRoutine
