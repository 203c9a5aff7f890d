import StoredRoutine.Script.Heap

/-!
# `StoredRoutine.Script.Machine.Basic`: steps

The machine takes one step at a time. A step leads on, ends the run, or asks for a service, which
whoever runs the machine answers. Between two steps everything is in the heap and the control, so
a property of runs is a property of steps.
-/

set_option autoImplicit false

namespace StoredRoutine.Script

/-- How a run ends. -/
inductive Ending where
  | finished (values : List Value)
  /-- The coroutine at the bottom waits; it is left in the heap. -/
  | yielded (values : List Value)
  | failed (error : Value)

/-- What a step comes to. -/
inductive Step where
  | next (h : Heap) (c : Control)
  /-- A service is asked for, whose function is at a position of the stack. The control waits for
  values or an error. -/
  | request (service : Service) (args : List Value) (position : Nat) (h : Heap) (c : Control)
  | ended (e : Ending) (h : Heap)

/-! ### Limits -/

/-- How many values the stack holds. -/
def maxStack : Nat := 1000000

/-- How deep calls may be nested that do not come from a script. -/
def maxLevel : Nat := 200

/-- How much of the stack a function of the library needs. -/
def libraryRoom : Nat := 20

/-! ### Activations -/

namespace Activation

/-- The line of the instruction in progress. -/
def line (a : Activation) : Nat := a.call.code.lines.getD (a.next - 1) 0

/-- The place of the instruction in progress, in front of a message. -/
def place (a : Activation) : List Char :=
  a.call.chunk ++ ':' :: (toString a.line).toList ++ [':', ' ']

/-- The first position of the stack behind the registers. -/
def top (a : Activation) : Nat := a.call.base + a.call.code.size

/-- The value in a register. -/
def register (a : Activation) (r : Nat) : Value := a.registers.getD r .nil

/-- Sets a register. -/
def setRegister (a : Activation) (r : Nat) (v : Value) : Activation :=
  { a with registers := a.registers.setIfInBounds r v }

/-- Sets registers from one on. -/
def setRegisters (a : Activation) (first : Nat) : List Value → Activation
  | [] => a
  | v :: rest => (a.setRegister first v).setRegisters (first + 1) rest

/-- Sets so many registers from one on; nil stands for the values that are missing. -/
def setCount (a : Activation) (first : Nat) : Nat → List Value → Activation
  | 0, _ => a
  | n + 1, values => (a.setRegister first (values.headD .nil)).setCount (first + 1) n values.tail

/-- The values of so many registers from one on. -/
def slice (a : Activation) (first count : Nat) : List Value :=
  (a.registers.extract first (first + count)).toList

/-- The values of so many registers from one on, or up to the end of the last open expression. -/
def valuesFrom (a : Activation) (first : Nat) : Option Nat → List Value
  | some count => a.slice first count
  | none => a.slice first (a.spreadFrom - first) ++ a.spread

/-- The cell that a register stands for. -/
def cell (a : Activation) (r : Nat) : CellId := a.cells.getD r ⟨0⟩

/-- Lets a register stand for a cell. -/
def setCell (a : Activation) (r : Nat) (cell : CellId) : Activation :=
  let cells :=
    if r < a.cells.size then a.cells.setIfInBounds r cell
    else (a.cells ++ Array.replicate (r - a.cells.size) (⟨0⟩ : CellId)).push cell
  { a with cells }

/-- The cell of a variable of a function around. -/
def outer (a : Activation) (index : Nat) : CellId := a.call.outers.getD index ⟨0⟩

/-- The value of a place. -/
def get (a : Activation) (h : Heap) (p : Place) : Value :=
  if p.shared then h.read (a.cell p.register) else a.register p.register

/-- The value of an operand. -/
def operand (a : Activation) (h : Heap) : Source → Value
  | .place p => a.get h p
  | .constant v => v.value

/-- What has the field of an instruction. -/
def holder (a : Activation) (h : Heap) : Holder → Value
  | .place p => a.get h p
  | .outer i => h.read (a.outer i)

end Activation

/-! ### Control -/

namespace Caller

/-- The place of what waits, in front of a message; nothing for a function of the library. -/
def place : Caller → List Char
  | .script a => a.place
  | .concat a _ => a.place
  | .native .. => []

/-- Whether what waits cannot be left by yielding. -/
def holds : Caller → Bool
  | .native .text _ _ => true
  | .native (.item _) _ _ => true
  | .native (.joinedLength _) _ _ => true
  | .native (.joinedItem _) _ _ => true
  | _ => false

end Caller

namespace Control

/-- The control with something else to do next. -/
def withFocus (c : Control) (focus : Focus) : Control := { c with focus }

/-- The control with one more caller. -/
def push (c : Control) (caller : Caller) : Control := { c with callers := caller :: c.callers }

/-- The place from which a function was called, so many calls further out than the innermost one;
nothing where no script is. -/
def placeAbove (c : Control) (further : Nat) : List Char :=
  match c.callers[further]? with
  | some caller => caller.place
  | none =>
    if c.thread.isSome then []
    else (c.beyond[further - c.callers.length]?).elim [] Caller.place

/-- The place of the call in progress. -/
def place (c : Control) : List Char := c.placeAbove 0

/-- Raises a message. -/
def raiseText (c : Control) (place : List Char) (text : String) : Control :=
  c.withFocus (.raise (.string (Text.bytesOfChars place ++ text.toUTF8)))

/-- Raises a message with the place of the call in progress. -/
def fault (c : Control) (text : String) : Control := c.raiseText c.place text

/-- Calls a function from a function of the library or an operator. -/
def nest (c : Control) (position : Nat) (f : Value) (args : List Value) : Control :=
  if maxLevel ≤ c.outerLevel + c.level + 1 then c.fault "C stack overflow"
  else { c with level := c.level + 1, focus := .call position f args }

/-- The coroutine in progress. -/
def running (c : Control) : Option ThreadId := c.thread <|> c.within

/-- Whether the function in progress can yield. -/
def canYield (c : Control) : Bool := c.thread.isSome && !c.callers.any Caller.holds

end Control

end StoredRoutine.Script
