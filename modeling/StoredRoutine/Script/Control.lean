import StoredRoutine.Script.Code.Basic

/-!
# `StoredRoutine.Script.Control`: where a running script is

The state of control is explicit: what happens next (`Focus`), and the calls that wait for it (a
stack of `Caller`). A coroutine that waits is such a stack put aside, so leaving it and coming back
is nothing but exchanging stacks.

Two things are counted, since both are limited: how much of the stack is in use, for which every
call of a function written in a script has a position, and how deep calls are nested that do not
come from a call in a script but from a function of the library or from an operator.
-/

set_option autoImplicit false

namespace StoredRoutine.Script

/-- A call of a function written in a script: what does not change while it runs. -/
structure Call where
  code : FunctionCode
  /-- The cells of the variables of functions around. -/
  outers : Array CellId
  /-- The name of the source, as messages show it. -/
  chunk : List Char
  /-- The further arguments. -/
  varargs : List Value
  /-- Where the function is on the stack. -/
  position : Nat
  /-- Where its registers are on the stack. -/
  base : Nat
  /-- How deep calls from other places than scripts are nested around it. -/
  level : Nat

/-- A call of a function written in a script, and how far it is. -/
structure Activation where
  call : Call
  /-- The number of the next instruction. -/
  next : Nat
  registers : Array Value
  /-- The cells for which registers stand. -/
  cells : Array CellId
  /-- The first register that the values of the last open expression would be in. -/
  spreadFrom : Nat := 0
  /-- The values of the last open expression. -/
  spread : List Value := []

/-- Items of a table that are being joined. -/
structure Joining where
  list : Value
  separator : ByteArray
  /-- The number of the next item. -/
  number : Int64
  last : Int64
  /-- The items before it. -/
  before : ByteArray

/-- What waits for the values of a call, if it is not an instruction. -/
inductive Native where
  /-- The end of a protected call, which catches what is raised. -/
  | guarded
  /-- The text of a value, which has to be a string or a number. -/
  | text
  /-- The value at a number, for a traversal in order of the numbers. -/
  | item (number : Int64)
  /-- The length of a table whose items are to be joined. -/
  | joinedLength (args : List Value)
  /-- An item of a table whose items are joined. -/
  | joinedItem (j : Joining)
  /-- What traverses a table, instead of the usual function. -/
  | traversal
  /-- A service that has called a function, as messages know it. -/
  | service

/-- What waits for the values of a call. -/
inductive Caller where
  /-- The instruction before the next one. -/
  | script (a : Activation)
  /-- An instruction that joins strings, with the operands that are left, the last one first. -/
  | concat (a : Activation) (left : List Value)
  | native (n : Native) (position level : Nat)

/-- What happens next. -/
inductive Focus where
  | run (a : Activation)
  | give (values : List Value)
  /-- A call, whose callee is at a position of the stack. -/
  | call (position : Nat) (callee : Value) (args : List Value)
  | raise (error : Value)

/-- What a coroutine is doing. -/
inductive ThreadState where
  /-- It has not been resumed yet. -/
  | fresh (body : Value)
  /-- It waits where it yielded. -/
  | waiting (callers : List Caller)
  /-- It runs, or waits for a coroutine that it resumed. -/
  | active
  | dead

/-- A stack that waits for a coroutine which it resumed. -/
structure Resumption where
  callers : List Caller
  /-- The coroutine whose stack it is; none for the stack at the bottom. -/
  thread : Option ThreadId
  /-- Whether an error goes on to the one who resumed. -/
  wraps : Bool
  /-- How deep calls are nested up to there. -/
  outerLevel : Nat
  level : Nat

/-- The whole state of control. -/
structure Control where
  focus : Focus
  callers : List Caller := []
  /-- The coroutine that runs; none at the bottom. -/
  thread : Option ThreadId := none
  /-- The stacks that wait for it, innermost first. -/
  resumptions : List Resumption := []
  /-- The coroutine around a run that cannot be left by yielding. -/
  within : Option ThreadId := none
  /-- The calls around a run, which only messages know of. -/
  beyond : List Caller := []
  /-- How deep calls are nested in front of the coroutine that runs, and in it. -/
  outerLevel : Nat := 0
  level : Nat := 0

end StoredRoutine.Script
