import StoredRoutine.Script.Code.Basic
import StoredRoutine.Script.Token

/-!
# `StoredRoutine.Script.Code.Draft`: functions that are being written

A draft is a function whose code is not complete: its instructions so far, the variables in scope,
the registers in use, and the jumps that wait for their labels. Drafts are nested as their
functions are. The number of registers, of variables and of variables of functions around is
limited.
-/

set_option autoImplicit false

namespace StoredRoutine.Script

/-- What a local variable is. -/
inductive VariableKind where
  | plain | const | close
  /-- A constant with a value that is known when the script is read. It has no register. -/
  | known (value : Constant)

namespace VariableKind

/-- The kind of a variable with an attribute. -/
def ofAttribute : LocalAttribute → VariableKind
  | .plain => .plain
  | .const => .const
  | .close => .close

/-- Whether a variable can be assigned to. -/
def isAssignable : VariableKind → Bool
  | .plain => true
  | _ => false

end VariableKind

/-- A local variable in scope. -/
structure LocalVariable where
  name : String
  kind : VariableKind
  place : Place

/-- A variable of a function around that a function uses. -/
structure OuterVariable where
  name : String
  kind : VariableKind
  capture : Capture

/-- A label in sight, with the number of variables in scope there. -/
structure LabelPoint where
  name : String
  position : Nat
  inScope : Nat

/-- A jump that waits for its label. -/
structure WaitingJump where
  label : String
  line : Nat
  position : Nat
  /-- How many variables are in scope at the jump, as far as the blocks around are concerned. -/
  inScope : Nat

/-- A block that is being written. -/
structure BlockDraft where
  /-- The number of variables in scope around it. -/
  outside : Nat
  isLoop : Bool
  /-- Whether it lies in the scope of a variable that has to be closed. -/
  closing : Bool
  labels : List LabelPoint := []
  jumps : List WaitingJump := []

/-- A function that is being written. -/
structure Draft where
  params : Nat := 0
  variadic : Bool := true
  code : Array Instruction := #[]
  lines : Array Nat := #[]
  /-- The constants that instructions refer to, in the order of their first use. -/
  constants : Array Constant := #[]
  functions : Array FunctionCode := #[]
  outers : Array OuterVariable := #[]
  /-- The variables in scope, innermost first. -/
  locals : List LocalVariable := []
  /-- The blocks around, innermost first. -/
  blocks : List BlockDraft := []
  /-- The number of registers in use. -/
  used : Nat := 0
  /-- The number of registers that were ever in use. -/
  size : Nat := 2
  /-- The last position that a jump may lead to. -/
  lastTarget : Nat := 0
  /-- The names that occur in functions inside. -/
  sharedNames : List String := []

/-- The code of a draft that is complete. -/
def Draft.complete (d : Draft) : FunctionCode :=
  { params := d.params, variadic := d.variadic, size := d.size, code := d.code, lines := d.lines,
    captures := d.outers.map (·.capture), functions := d.functions }

/-- The function that is being written, and those around it, innermost first. -/
structure Drafts where
  current : Draft
  around : List Draft := []

/-- Writes a function; the source may turn out to be wrong. -/
abbrev Drafting : Type → Type := StateT Drafts (Except SyntaxFault)

namespace Drafting

/-- The most registers that a function may use, and one more. -/
def maxRegisters : Nat := 255

/-- The most local variables that a function may have at a time. -/
def maxVariables : Nat := 200

/-- The most variables of functions around that a function may use. -/
def maxOuters : Nat := 255

/-- The greatest number of a constant that an instruction can refer to. -/
def maxConstant : Nat := 255

/-- The source is wrong at a line. -/
def fail {α : Type} (line : Nat) (text : String) : Drafting α := throw ⟨line, text⟩

/-- The function that is being written. -/
def current : Drafting Draft := do return (← get).current

/-- Changes the function that is being written. -/
def change (f : Draft → Draft) : Drafting Unit := modify fun d => { d with current := f d.current }

/-! ### Instructions -/

/-- The position of the next instruction. -/
def position : Drafting Nat := do return (← current).code.size

/-- The position of the next instruction, to which a jump may lead. -/
def mark : Drafting Nat := do
  let here ← position
  change fun d => { d with lastTarget := here }
  return here

/-- Writes an instruction and answers its position. -/
def emit (line : Nat) (i : Instruction) : Drafting Nat := do
  let here ← position
  change fun d => { d with code := d.code.push i, lines := d.lines.push line }
  return here

/-- Changes the instruction at a position. -/
def rewrite (position : Nat) (f : Instruction → Instruction) : Drafting Unit :=
  change fun d => { d with code := d.code.modify position f }

/-- The last instruction, unless a jump may lead behind it. -/
def previous? : Drafting (Option Instruction) := do
  let d ← current
  return if d.lastTarget < d.code.size then d.code.back? else none

/-- Takes the last instruction back. -/
def takeBack : Drafting Unit := change fun d => { d with code := d.code.pop, lines := d.lines.pop }

/-- Whether two constants count as one. -/
def sameConstant : Constant → Constant → Bool
  | .number (.int a), .number (.int b) => a == b
  | .number (.float a), .number (.float b) => a.toBits == b.toBits
  | .string a, .string b => a == b
  | .bool a, .bool b => a == b
  | .nil, .nil => true
  | _, _ => false

/-- The number of a constant. -/
def constantNumber (v : Constant) : Drafting Nat := do
  let d ← current
  match d.constants.findIdx? (sameConstant v) with
  | some i => return i
  | none =>
    change fun d => { d with constants := d.constants.push v }
    return d.constants.size

/-! ### Registers -/

/-- The number of registers of variables among so many variables in scope. -/
def levelOf (locals : List LocalVariable) : Nat :=
  match locals with
  | [] => 0
  | v :: rest =>
    match v.kind with
    | .known _ => levelOf rest
    | _ => v.place.register + 1

/-- The number of registers of variables in scope. -/
def level : Drafting Nat := do return levelOf (← current).locals

/-- Makes sure that there are so many more registers. -/
def ensure (count : Nat) : Drafting Unit := do
  let size := (← current).used + count
  if maxRegisters ≤ size then fail 0 "function or expression needs too many registers"
  else change fun d => { d with size := max d.size size }

/-- Takes so many more registers into use. -/
def reserve (count : Nat) : Drafting Unit := do
  ensure count
  change fun d => { d with used := d.used + count }

/-- Takes the next register into use. -/
def next : Drafting Place := do
  let d ← current
  reserve 1
  return ⟨d.used, false⟩

/-- Gives a register back, unless it is that of a variable. -/
def release (register : Nat) : Drafting Unit := do
  if (← level) ≤ register then change fun d => { d with used := d.used - 1 }

/-- Gives two registers back, the higher one first. -/
def releaseBoth (a b : Nat) : Drafting Unit := do
  release (max a b)
  release (min a b)

/-- Gives all registers back but those of variables. -/
def releaseAll : Drafting Unit := do
  let level ← level
  change fun d => { d with used := level }

/-! ### Variables -/

/-- There have to be so many more variables possible. -/
def checkVariables (count : Nat) : Drafting Unit := do
  if maxVariables < (← current).locals.length + count then fail 0 "too many local variables"

/-- Brings variables into scope. Their registers are the next ones, whether in use already or
not. -/
def declare : List (String × VariableKind) → Drafting Unit
  | [] => pure ()
  | (name, kind) :: rest => do
    let register ← level
    let shared := (← current).sharedNames.contains name
    change fun d =>
      { d with locals := { name, kind, place := ⟨register, shared⟩ } :: d.locals }
    if shared then
      let _ ← emit 0 (.share register)
    declare rest

/-- Brings variables into scope that scripts cannot name. -/
def declareHidden (count : Nat) : Drafting Unit :=
  declare (List.replicate count ("(for state)", .plain))

/-- What a name stands for. -/
inductive Meaning where
  | variable (v : LocalVariable)
  | outer (index : Nat) (kind : VariableKind)
  | global

/-- The meaning of a name in a function, with the functions around it innermost first. A variable of
a function further out becomes one of each function on the way. -/
def lookupIn (name : String) :
    Draft → List Draft → Except SyntaxFault (Meaning × Draft × List Draft)
  | d, around =>
    match d.locals.find? fun v => v.name == name with
    | some v => .ok (.variable v, d, around)
    | none =>
      match d.outers.findIdx? fun o => o.name == name with
      | some i => .ok (.outer i ((d.outers[i]?).elim .plain (·.kind)), d, around)
      | none =>
        match around with
        | [] => .ok (.global, d, [])
        | outer :: further => do
          let (meaning, outer, further) ← lookupIn name outer further
          let around := outer :: further
          let add (kind : VariableKind) (capture : Capture) :
              Except SyntaxFault (Meaning × Draft × List Draft) :=
            if maxOuters ≤ d.outers.size then .error ⟨0, "too many upvalues"⟩
            else
              .ok (.outer d.outers.size kind,
                { d with outers := d.outers.push { name, kind, capture } }, around)
          match meaning with
          | .global => return (.global, d, around)
          | .outer i kind => add kind (.outer i)
          | .variable v =>
            match v.kind with
            | .known _ => return (.variable v, d, around)
            | kind => add kind (.cell v.place.register)

/-- The meaning of a name. -/
def lookup (name : String) : Drafting Meaning := do
  let d ← get
  let (meaning, current, around) ← lookupIn name d.current d.around
  set { d with current, around }
  return meaning

/-! ### Functions -/

/-- Starts a function inside. -/
def openFunction (params : List String) (variadic : Bool) (sharedNames : List String) :
    Drafting Unit := do
  modify fun d => { current := { variadic, sharedNames }, around := d.current :: d.around }
  checkVariables params.length
  change fun d => { d with params := params.length, blocks := [⟨0, false, false, [], []⟩] }
  declare (params.map fun p => (p, .plain))
  reserve params.length

/-- Ends a function inside and answers its number. -/
def closeFunction : Drafting Nat := do
  let d ← get
  match d.around with
  | [] => return 0
  | outer :: further =>
    let code := d.current.complete
    set
      ({ current := { outer with functions := outer.functions.push code }, around := further }
        : Drafts)
    return outer.functions.size

end Drafting

end StoredRoutine.Script
