import StoredRoutine.Script.Syntax
import StoredRoutine.Script.Value

/-!
# `StoredRoutine.Script.Code.Basic`: scripts as instructions

A function runs in registers, numbered from zero. A local variable has a register of its own for as
long as it is in scope; the values of expressions are put into the registers above. A variable that
a function inside shares lives in a cell, and its register stands for that cell. Which instruction
reads a variable is part of the language: it is the one that needs the value, so an operand that is
a variable is read after the operands behind it were evaluated.
-/

set_option autoImplicit false

namespace StoredRoutine.Script

/-- A value that stands in the code of a function. -/
inductive Constant where
  | nil
  | bool (value : Bool)
  | number (value : Number)
  | string (bytes : ByteArray)

namespace Constant

/-- The constant of a text. -/
def ofText (s : String) : Constant := .string s.toUTF8

/-- The constant of a word. -/
def ofInt (n : Int64) : Constant := .number (.int n)

/-- The value that scripts get. -/
def value : Constant → Value
  | .nil => .nil
  | .bool b => .bool b
  | .number n => .number n
  | .string b => .string b

/-- Whether a constant counts as true. -/
def isTrue (c : Constant) : Bool := c.value.isTrue

end Constant

/-- Where a function keeps a value. -/
structure Place where
  register : Nat
  /-- Whether the value is in the cell that the register stands for. -/
  shared : Bool := false
  deriving Repr, DecidableEq, Inhabited

/-- Where an instruction takes an operand from. -/
inductive Source where
  | place (p : Place)
  | constant (value : Constant)

/-- What has the field that an instruction reads or sets. -/
inductive Holder where
  | place (p : Place)
  /-- A variable of a function around, by its number. -/
  | outer (index : Nat)

/-- What is asked of two operands. -/
inductive Comparison where
  | equal | less | lessEqual
  deriving Repr, DecidableEq

/-- An instruction. Where a number of values is optional, nothing stands for all that there are. -/
inductive Instruction where
  | load (dest : Place) (value : Constant)
  | loadNils (first count : Nat)
  | copy (dest source : Place)
  | getOuter (dest : Place) (index : Nat)
  | setOuter (index : Nat) (source : Place)
  | getField (dest : Place) (object : Holder) (key : Source)
  | setField (object : Holder) (key value : Source)
  /-- Puts a field of an object into a register and the object into the next one. -/
  | getMethod (first : Nat) (object : Place) (key : Source)
  /-- Makes a table with room for items and entries. -/
  | newTable (dest items entries : Nat)
  /-- Gives a table the values in the registers after it, as its items behind the given number. -/
  | fill (table items : Nat) (count : Option Nat)
  | unary (dest : Place) (op : UnaryOp) (operand : Place)
  | arith (dest : Place) (op : ArithOp) (left right : Source)
  /-- Joins the strings in registers. -/
  | concat (first count : Nat)
  | jump (target : Nat)
  /-- A jump that belongs to the instruction before it or to the one it leads to. -/
  | skip (target : Nat)
  /-- Jumps if a condition holds or not, and then keeps its value. -/
  | branch (condition : Place) (holds : Bool) (keep : Option Place) (target : Nat)
  /-- Jumps if a comparison comes out as said. -/
  | compare (op : Comparison) (left right : Source) (holds : Bool) (target : Nat)
  /-- Calls the value in a register with those after it. The results take its place. -/
  | call (first : Nat) (args results : Option Nat)
  /-- A call whose results are those of the function itself. -/
  | tailCall (first : Nat) (args : Option Nat)
  /-- Ends the function with the values in registers. -/
  | result (first : Nat) (count : Option Nat)
  /-- Ends the function with one value. -/
  | resultOne (source : Place)
  /-- The further arguments of the function. -/
  | varargs (dest : Place) (count : Option Nat)
  /-- Makes the function of the given number. -/
  | closure (dest : Place) (index : Nat)
  /-- Puts the value of a register into a new cell, for which the register stands from then on. -/
  | share (register : Nat)
  /-- Starts a counting loop, or skips it. Its bounds are in three registers, its variable comes
  behind them. -/
  | countStart (first exit : Nat)
  | countNext (first body : Nat)
  /-- Calls the iterator of a loop for the values of so many variables. -/
  | eachCall (first count : Nat)
  | eachNext (first body : Nat)

instance : Inhabited Instruction := ⟨.jump 0⟩

namespace Instruction

/-- The instruction with another place for its result. -/
def withDest (dest : Place) : Instruction → Instruction
  | .load _ v => .load dest v
  | .copy _ s => .copy dest s
  | .getOuter _ i => .getOuter dest i
  | .getField _ o k => .getField dest o k
  | .unary _ op a => .unary dest op a
  | .arith _ op a b => .arith dest op a b
  | .varargs _ n => .varargs dest n
  | .closure _ i => .closure dest i
  | i => i

/-- The instruction with another target. -/
def withTarget (target : Nat) : Instruction → Instruction
  | .jump _ => .jump target
  | .skip _ => .skip target
  | .branch c holds keep _ => .branch c holds keep target
  | .compare op a b holds _ => .compare op a b holds target
  | .countStart first _ => .countStart first target
  | i => i

/-- The instruction that jumps when this one does not. -/
def negated : Instruction → Instruction
  | .compare op a b holds t => .compare op a b (!holds) t
  | i => i

/-- Whether an instruction counts where the instructions that have run are counted. -/
def isCounted : Instruction → Bool
  | .skip _ => false
  | .share _ => false
  | .eachNext .. => false
  | _ => true

end Instruction

/-- How a function that is made gets a variable of the functions around it. -/
inductive Capture where
  /-- From the cell that a register of the function around stands for. -/
  | cell (register : Nat)
  /-- From the function around, which has it from further out. -/
  | outer (index : Nat)
  deriving Repr, DecidableEq

/-- The code of a function. -/
structure FunctionCode where
  /-- The number of parameters; they are the first registers. -/
  params : Nat
  variadic : Bool
  /-- The number of registers. -/
  size : Nat
  code : Array Instruction
  /-- The lines of the instructions. -/
  lines : Array Nat
  captures : Array Capture
  functions : Array FunctionCode

instance : Inhabited FunctionCode := ⟨⟨0, true, 2, #[], #[], #[], #[]⟩⟩

end StoredRoutine.Script
