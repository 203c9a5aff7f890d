import StoredRoutine.Engine.Basic
import StoredRoutine.Text.Bytes

/-!
# `StoredRoutine.Engine.Exchange`: handing values to running scripts and back

`Serving.toValue` makes the value of a script from a value of marshaling, `Engine.ofValue` goes
back. On the way back tables that are nested too deep are refused, which also ends the reading of
a table that holds itself. Keys are whole numbers or texts; a number that is not whole becomes its
text.
-/

set_option autoImplicit false

namespace StoredRoutine

open Script (Heap Number Table Value)

namespace Serving

mutual

/-- Makes a value of a script. -/
def toValue : ScriptValue → Serving Value
  | .nil => pure .nil
  | .bool b => pure (.bool b)
  | .int n => pure (.ofInt n)
  | .number x => pure (.number (.ofFloat x))
  | .string b => pure (.string b)
  | .table entries => do
    let table ← toTable entries (Table.withRoom 0 entries.length)
    modifyGet fun e =>
      let (id, heap) := e.heap.newTable table
      (.table id, { e with heap })
  | .tuple none => pure .nil
  | .tuple (some row) => do showTuple (← newTuple row .readOnly)
  | .cursor name => newCursor name

/-- Enters values into a table. -/
def toTable : List (ScriptKey × ScriptValue) → Table → Serving Table
  | [], t => pure t
  | (key, v) :: rest, t => do
    let value ← toValue v
    let key : Value :=
      match key with
      | .int n => .ofInt n
      | .text s => .ofText s
    toTable rest (t.set key value)

end

end Serving

namespace Engine

/-- The failure for a table that is nested too deep. -/
def tooDeep (maxDepth : Nat) : Failure :=
  .conversion s!"table nesting exceeds the maximum depth ({maxDepth})"

/-- The failure for a value that has no counterpart in the database. -/
def notConvertible (kind : String) : Failure :=
  .conversion s!"cannot convert {kind} to a database value"

/-- The text of a number as a key or as a message: positional, and short for infinity. -/
def numberText : Number → String
  | .int n => toString n.toInt
  | .float x => { Decimal.FloatStyle.plain with infinity := "inf" }.render x
  | .nan _ => "NaN"

/-- Reads a key. -/
def keyOf : Value → Outcome ScriptKey
  | .number n =>
    match n.normalized with
    | .int i => .ok (.int i)
    | n => .ok (.text (numberText n))
  | .string b =>
    match String.fromUTF8? b with
    | some s => .ok (.text s)
    | none => .error Serving.mismatch
  | v => .error (.conversion s!"table keys of type {v.kindName} are not supported")

/-- Reads a value in which tables are nested at most so many levels deep. -/
def readValue (e : Engine) : Nat → Value → Outcome ScriptValue
  | _, .nil => .ok .nil
  | _, .bool b => .ok (.bool b)
  | _, .number (.int n) => .ok (.int n)
  | _, .number n => .ok (.number n.toFloat)
  | _, .string b => .ok (.string b)
  | 0, .table _ => .error (tooDeep e.options.maxTableDepth)
  | left + 1, .table id => do
    let entries ← (e.heap.table id).pairs.foldlM (fun (entries : ScriptTable) entry => do
      let key ← keyOf entry.1
      let value ← readValue e left entry.2
      return entries.insert key value) []
    return .table entries
  | _, .object _ id =>
    match e.object? id with
    | some (.tuple t) => .ok (.tuple ((e.tuple? t).bind e.rowOf?))
    | some (.cursor c) => .ok (.cursor c.name)
    | _ => .error (notConvertible "userdata")
  | _, v => .error (notConvertible v.kindName)

/-- Reads a value of a script. -/
def ofValue (e : Engine) (v : Value) : Outcome ScriptValue := e.readValue e.options.maxTableDepth v

end Engine

namespace Serving

/-- Reads a value of a script. -/
def ofValue (v : Value) : Serving ScriptValue := do
  let e ← get
  ofOutcome (e.ofValue v)

/-- Reads a value of a script and converts it to a type. -/
def toDatum (v : Value) (id : TypeId) (typeMod : Int32) : Serving (Option Datum) := do
  let v ← ofValue v
  converting fun b => Marshal.toRelational b v id typeMod

/-- Converts a datum of a type and makes it a value of a script. -/
def ofDatum (d : Option Datum) (id : TypeId) : Serving Value := do
  toValue (← converting fun b => Marshal.optionToScript b d id)

end Serving

end StoredRoutine
