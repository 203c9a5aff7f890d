import StoredRoutine.Script.Library.Basic
import StoredRoutine.Script.Machine.Basic
import StoredRoutine.Script.Operators

/-!
# `StoredRoutine.Script.Machine.Fields`: reading and setting fields

A table answers for the keys that it has, and its metatable for the others: a handler that is a
function is called, and any other one is asked for the field in turn, so many times at most. Tuples
and the rows of a result are read by the engine; plans and cursors have methods and nothing else.
-/

set_option autoImplicit false

namespace StoredRoutine.Script.Machine

/-- The methods of plans. -/
def planMethods : List (String × Service) :=
  [("execute", .planExecute), ("getcursor", .planCursor), ("rows", .planRows), ("save", .planSave),
    ("issaved", .planIsSaved)]

/-- The methods of cursors. -/
def cursorMethods : List (String × Service) :=
  [("fetch", .cursorFetch), ("move", .cursorMove), ("posfetch", .cursorFetchAt),
    ("posmove", .cursorMoveTo), ("close", .cursorClose)]

/-- The method of the given name; nil if there is none. -/
def method (methods : List (String × Service)) (key : Value) : Value :=
  match key with
  | .string b => ((methods.find? fun m => m.1.toUTF8 == b).map fun m => Value.service m.2).getD .nil
  | _ => .nil

/-- How many handlers are asked one after the other. -/
def maxHandlers : Nat := 2000

/-- What asking for a value comes to. -/
inductive Asked where
  | value (v : Value)
  /-- A handler has to be called. -/
  | handler (f : Value) (args : List Value)
  /-- The engine has to be asked. -/
  | request (service : Service) (args : List Value)
  | fault (text : String)

/-- What an operator comes to. -/
def Asked.ofApplied : Applied → Asked
  | .value v => .value v
  | .handler f args => .handler f args
  | .fault text => .fault text

/-- Reads a field, with so many handlers to go. -/
def index (h : Heap) : Nat → Value → Value → Asked
  | 0, .table id, key =>
    let v := h.rawGet id key
    if v.isNil then .fault "'__index' chain too long; possibly a loop" else .value v
  | 0, _, _ => .fault "'__index' chain too long; possibly a loop"
  | left + 1, object, key =>
    let ask (f : Value) : Asked :=
      if f.isFunction then .handler f [object, key] else index h left f key
    match object with
    | .table id =>
      let v := h.rawGet id key
      if !v.isNil then .value v
      else
        let f := h.handler object "__index"
        if f.isNil then .value .nil else ask f
    | .object .tuple _ => .request .readField [object, key]
    | .object .rows _ => .request .readField [object, key]
    | .object .plan _ => .value (method planMethods key)
    | .object .cursor _ => .value (method cursorMethods key)
    | v =>
      let f := h.handler v "__index"
      if f.isNil then .fault (Operators.wrongOperand h "index" v) else ask f

/-- Reads a field. -/
def read (h : Heap) (object key : Value) : Asked := index h maxHandlers object key

/-- Takes notice that a field was looked up. -/
def noticed (h : Heap) (object key : Value) : Heap :=
  match object with
  | .table id => h.touch id key
  | _ => h

/-- Where a field is to be set. -/
inductive Stored where
  | entry (table : TableId)
  /-- A handler has to be called, or the engine asked. -/
  | asked (a : Asked)

/-- Finds out where a field is to be set, with so many handlers to go. -/
def storePlace (h : Heap) (key value : Value) : Nat → Value → Stored
  | 0, .table id =>
    if (h.rawGet id key).isNil then .asked (.fault "'__newindex' chain too long; possibly a loop")
    else .entry id
  | 0, _ => .asked (.fault "'__newindex' chain too long; possibly a loop")
  | left + 1, object =>
    match object with
    | .table id =>
      if (h.table id).metatable.isNone then .entry id
      else if !(h.rawGet id key).isNil then .entry id
      else
        let f := h.handler object "__newindex"
        if f.isNil then .entry id
        else if f.isFunction then .asked (.handler f [object, key, value])
        else storePlace h key value left f
    | .object .tuple _ => .asked (.request .writeField [object, key, value])
    | v => .asked (.fault (Operators.wrongOperand h "index" v))

/-- Goes on with what asking for a value has come to. What the value is for waits already. -/
def resolve (h : Heap) (c : Control) (position : Nat) (asked : Asked) : Step :=
  match asked with
  | .value v => .next h (c.withFocus (.give [v]))
  | .handler f args => .next h (c.nest position f args)
  | .request s args => .request s args position h c
  | .fault text => .next h (c.fault text)

/-- The length of a value: that of a string or a table, unless the metatable of the table has a
handler for it. The rows of a result are counted by the engine. -/
def lengthOf (h : Heap) (v : Value) : Asked × Heap :=
  match v with
  | .string b => (.value (.ofNat b.size), h)
  | .table id =>
    let f := h.handler v "__len"
    if f.isNil then
      let (n, h) := h.length id
      (.value (.ofNat n), h)
    else (.handler f [v, v], h)
  | .object .rows _ => (.request .countRows [v], h)
  | v => (.fault (Operators.wrongOperand h "get length of" v), h)

end StoredRoutine.Script.Machine
