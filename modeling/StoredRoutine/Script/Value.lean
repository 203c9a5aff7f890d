import StoredRoutine.Failure
import StoredRoutine.Script.Number
import StoredRoutine.Text.Bytes

/-!
# `StoredRoutine.Script.Value`: what a running script works with

Values are small: tables, functions written in a script, coroutines and the objects of the engine
are named by identifiers and live elsewhere. Functions that are not written in a script are of two
kinds. A `Builtin` belongs to the library of the language. A `Service` is answered by the engine:
it may reach the database.
-/

set_option autoImplicit false

namespace StoredRoutine.Script

/-- Names a table. -/
structure TableId where
  index : Nat
  deriving Repr, DecidableEq, Hashable

/-- Names the cell of a variable. -/
structure CellId where
  index : Nat
  deriving Repr, DecidableEq, Hashable

/-- Names a function written in a script. -/
structure ClosureId where
  index : Nat
  deriving Repr, DecidableEq, Hashable

/-- Names a coroutine. -/
structure ThreadId where
  index : Nat
  deriving Repr, DecidableEq, Hashable

/-- Names an object of the engine. -/
structure ObjectId where
  index : Nat
  deriving Repr, DecidableEq, Hashable

/-- The kinds of objects that the engine hands to scripts. -/
inductive ObjectKind where
  /-- A row whose columns are fields. -/
  | tuple
  /-- The rows of a result, by number. -/
  | rows
  /-- A statement with parameter types. -/
  | plan
  | cursor
  deriving Repr, DecidableEq, Hashable

/-- The functions of the library that are provided. A function that is only there is `absent`. -/
inductive Builtin where
  | assert | error | getMetatable | ipairs | ipairsNext | next | pairs | pcall
  | rawEqual | rawGet | rawLen | rawSet | select | setMetatable | toNumber | toText | typeOf
  | coCreate | coIsYieldable | coResume | coRunning | coStatus | coWrap | coYield
  | mathAbs | mathCeil | mathFloor | mathFmod | mathMax | mathMin | mathSqrt | mathToInteger
  | mathType
  | stringByte | stringChar | stringLen | stringLower | stringRep | stringReverse | stringSub
  | stringUpper
  | tableConcat | tableInsert | tablePack | tableRemove | tableUnpack
  | absent (name : String)
  deriving Repr, DecidableEq, Hashable

/-- The functions that send a message. -/
inductive Announcer where
  | print | info | notice | log | warning
  deriving Repr, DecidableEq, Hashable

/-- The functions that the engine answers. -/
inductive Service where
  | announce (announcer : Announcer)
  /-- Sets a global without asking. -/
  | setShared
  /-- Refuses to set a global. -/
  | denyGlobal
  /-- Runs a function under a savepoint. It is published in two places, as two functions. -/
  | protectedCall (asGlobal : Bool)
  | execute | openRows | findCursor | prepare
  | planExecute | planCursor | planRows | planSave | planIsSaved
  | cursorFetch | cursorMove | cursorFetchAt | cursorMoveTo | cursorClose
  /-- The next row of an iterator. -/
  | nextRow (iterator : ObjectId)
  /-- Reads a field of a tuple, or a row of a result by its number. -/
  | readField
  | writeField
  | countRows
  /-- The text of an object. -/
  | objectText
  deriving Repr, DecidableEq, Hashable

/-- A value of a script. -/
inductive Value where
  | nil
  | bool (value : Bool)
  | number (value : Number)
  | string (bytes : ByteArray)
  | table (id : TableId)
  | closure (id : ClosureId)
  | builtin (b : Builtin)
  | service (s : Service)
  /-- A function that resumes a coroutine. -/
  | resumer (thread : ThreadId)
  | thread (id : ThreadId)
  | object (kind : ObjectKind) (id : ObjectId)
  /-- A failure of the library, as it is raised in scripts. -/
  | failure (f : Failure)

instance : Inhabited Value := ⟨.nil⟩

namespace Value

/-- The value of a text. -/
def ofText (s : String) : Value := .string s.toUTF8

/-- The value of a word. -/
def ofInt (n : Int64) : Value := .number (.int n)

/-- The value of a count. -/
def ofNat (n : Nat) : Value := .number (.int (Int64.ofNat n))

/-- Whether a value counts as true: all do but false and nil. -/
def isTrue : Value → Bool
  | .nil => false
  | .bool b => b
  | _ => true

/-- Whether a value is nil. -/
def isNil : Value → Bool
  | .nil => true
  | _ => false

/-- Whether a value is a function. -/
def isFunction : Value → Bool
  | .closure _ => true
  | .builtin _ => true
  | .service _ => true
  | .resumer _ => true
  | _ => false

/-- The name of a value's type, as scripts see it. -/
def typeName : Value → String
  | .nil => "nil"
  | .bool _ => "boolean"
  | .number _ => "number"
  | .string _ => "string"
  | .table _ => "table"
  | .closure _ => "function"
  | .builtin _ => "function"
  | .service _ => "function"
  | .resumer _ => "function"
  | .thread _ => "thread"
  | .object .. => "userdata"
  | .failure _ => "userdata"

/-- The name of a value's type, as messages of the engine have it: whole numbers and failures
differ from what scripts see. -/
def kindName : Value → String
  | .number (.int _) => "integer"
  | .failure _ => "error"
  | v => v.typeName

/-- Whether two values are the same, without asking any metatable. -/
def same : Value → Value → Bool
  | .nil, .nil => true
  | .bool a, .bool b => a == b
  | .number a, .number b => a.equal b
  | .string a, .string b => a == b
  | .table a, .table b => a == b
  | .closure a, .closure b => a == b
  | .builtin a, .builtin b => a == b
  | .service a, .service b => a == b
  | .resumer a, .resumer b => a == b
  | .thread a, .thread b => a == b
  | .object k a, .object l b => k == l && a == b
  | .failure a, .failure b => a == b
  | _, _ => false

/-- The value as a key of a table: a double that equals a word is that word. -/
def asKey : Value → Value
  | .number n => .number n.normalized
  | v => v

/-- The bytes of a string, or of the text of a number. -/
def stringForm? : Value → Option ByteArray
  | .string b => some b
  | .number n => some n.display.toUTF8
  | _ => none

/-- The number that a value is, or that its string stands for. -/
def numberForm? : Value → Option Number
  | .number n => some n
  | .string b => Number.read? (Text.byteChars b)
  | _ => none

/-- The word that a value is, or that its number equals. -/
def intForm? (v : Value) : Option Int64 := v.numberForm?.bind Number.toInt64?

/-- The digits that tell values of one type apart. -/
def address (index : Nat) : String := "0x" ++ Text.hexNat 14 (index + 1)

/-- The text of a value, without asking any metatable. -/
def display : Value → ByteArray
  | .nil => "nil".toUTF8
  | .bool b => (if b then "true" else "false").toUTF8
  | .number n => n.display.toUTF8
  | .string b => b
  | .table id => ("table: " ++ address id.index).toUTF8
  | .closure id => ("function: " ++ address id.index).toUTF8
  | .builtin _ => "function: builtin".toUTF8
  | .service _ => "function: builtin".toUTF8
  | .resumer id => ("function: " ++ address id.index).toUTF8
  | .thread id => ("thread: " ++ address id.index).toUTF8
  | .object _ id => ("userdata: " ++ address id.index).toUTF8
  | .failure f => (f.display ++ "\nstack traceback:\n\t[C]: in ?").toUTF8

end Value

end StoredRoutine.Script
