import StoredRoutine.Script.Value

/-!
# `StoredRoutine.Script.Table.Key`: keys of tables

Every value but nil and NaN can be a key. A double that equals a word is the same key as the word,
so two keys are equal exactly if the values they come from are the same for scripts.
-/

set_option autoImplicit false

namespace StoredRoutine.Script

/-- A key of a table. -/
inductive Key where
  | bool (value : Bool)
  | int (value : Int64)
  /-- A double that equals no word, by its bits. -/
  | double (bits : UInt64)
  | string (bytes : ByteArray)
  | table (id : TableId)
  | closure (id : ClosureId)
  | builtin (b : Builtin)
  | service (s : Service)
  | resumer (thread : ThreadId)
  | thread (id : ThreadId)
  | object (kind : ObjectKind) (id : ObjectId)
  | failure (f : Failure)
  deriving DecidableEq, Hashable

namespace Key

/-- The key of a text. -/
def ofText (s : String) : Key := .string s.toUTF8

/-- The key of a count. -/
def ofNat (n : Nat) : Key := .int (Int64.ofNat n)

/-- The key that a value is. -/
def ofValue? : Value → Option Key
  | .nil => none
  | .bool b => some (.bool b)
  | .number n =>
    match n.normalized with
    | .int i => some (.int i)
    | .float x => some (.double x.toBits)
    | .nan _ => none
  | .string b => some (.string b)
  | .table id => some (.table id)
  | .closure id => some (.closure id)
  | .builtin b => some (.builtin b)
  | .service s => some (.service s)
  | .resumer t => some (.resumer t)
  | .thread t => some (.thread t)
  | .object k id => some (.object k id)
  | .failure f => some (.failure f)

/-- The value that a key is. -/
def value : Key → Value
  | .bool b => .bool b
  | .int n => .number (.int n)
  | .double bits => .number (.float (Float.ofBits bits))
  | .string b => .string b
  | .table id => .table id
  | .closure id => .closure id
  | .builtin b => .builtin b
  | .service s => .service s
  | .resumer t => .resumer t
  | .thread t => .thread t
  | .object k id => .object k id
  | .failure f => .failure f

/-- The number that a key is, if it can be that of an item. -/
def itemNumber? : Key → Option Nat
  | .int n => if 0 < n then some n.toInt.toNat else none
  | _ => none

end Key

end StoredRoutine.Script
