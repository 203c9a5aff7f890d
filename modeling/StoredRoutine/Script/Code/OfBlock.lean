import StoredRoutine.Script.Code.Assignment
import StoredRoutine.Script.Code.Operation
import StoredRoutine.Script.Code.Scope
import StoredRoutine.Script.Parser

/-!
# `StoredRoutine.Script.Code.OfBlock`: from trees to instructions

Expressions and statements are written one after the other, as they stand. `FunctionCode.ofSource`
is all that scripts go through before they run; it fails if a source is no script, or does what a
script may not do: assign to a constant, use `...` where there are no further arguments, jump where
no label is, or need more registers or variables than there are.
-/

set_option autoImplicit false

namespace StoredRoutine.Script

namespace Drafting

/-! ### Parts of expressions -/

/-- A local variable as an operand. -/
def variableOperand (v : LocalVariable) : Operand :=
  match v.kind with
  | .known c => { held := .constant c }
  | _ => { held := .place v.place }

/-- The table of globals. -/
def globals : Drafting Operand := do
  match ← lookup "_ENV" with
  | .variable v => return variableOperand v
  | .outer i _ => return { held := .outer i }
  | .global => return { held := .constant .nil }

/-- A global that is first needed at a line. -/
def global (line : Nat) (name : String) : Drafting Held := do
  let table ← toHolder (← globals)
  field line table { held := .constant (.ofText name) }

/-- What a name stands for. -/
def named (line : Nat) (name : String) : Drafting Operand := do
  match ← lookup name with
  | .variable v => return variableOperand v
  | .outer i _ => return { held := .outer i }
  | .global => return { held := ← global line name }

/-- A name as the target of an assignment. -/
def namedTarget (line : Nat) (name : String) : Drafting AssignTarget := do
  let refuse : Drafting AssignTarget :=
    fail line s!"attempt to assign to const variable '{name}'"
  match ← lookup name with
  | .variable v => if v.kind.isAssignable then return .variable v.place else refuse
  | .outer i kind => if kind.isAssignable then return .outer i else refuse
  | .global => fieldTarget (← global line name)
where
  /-- A field as the target of an assignment. -/
  fieldTarget : Held → Drafting AssignTarget
    | .field _ object key => return .field object key
    | _ => fail line "cannot assign to this expression"

/-- A call, whose callee and arguments are in registers. -/
def callFrom (line first : Nat) (args : Option Nat) : Drafting Operand := do
  let position ← emit line (.call first args (some 1))
  change fun d => { d with used := first + 1 }
  return { held := .call position first }

/-- A table expression in progress. -/
structure Filling where
  table : Nat
  /-- An item that is not in a register yet. -/
  item : Option Operand := none
  /-- The number of items in registers, this one included. -/
  waiting : Nat := 0
  /-- The number of items that the table has. -/
  stored : Nat := 0
  entries : Nat := 0

/-- How many items wait before they enter their table. -/
def fillCount : Nat := 50

/-- Enters the items in registers into the table. -/
def fillNow (f : Filling) (count : Option Nat) : Drafting Unit := do
  let _ ← emit 0 (.fill f.table f.stored count)
  change fun d => { d with used := f.table + 1 }

/-- Brings the last item into a register. -/
def closeItem (f : Filling) : Drafting Filling := do
  match f.item with
  | none => return f
  | some o =>
    let _ ← toNext o
    let f := { f with item := none }
    if f.waiting = fillCount then
      fillNow f (some f.waiting)
      return { f with stored := f.stored + f.waiting, waiting := 0 }
    else return f

/-- Enters the last items into the table. Answers how many items it has room for. -/
def closeItems (f : Filling) : Drafting Nat := do
  if f.waiting = 0 then return f.stored
  else
    match f.item with
    | some o =>
      if o.isOpen then
        setCount o none
        fillNow f none
        return f.stored + f.waiting - 1
      else
        let _ ← toNext o
        fillNow f (some f.waiting)
        return f.stored + f.waiting
    | none =>
      fillNow f (some f.waiting)
      return f.stored + f.waiting

/-! ### Parts of statements -/

/-- Ends the function that is being written, and makes it at a place in the function around. -/
def endFunction : Drafting Operand := do
  let _ ← emit 0 (.result (← level) (some 0))
  leaveBlock
  let index ← closeFunction
  resulting 0 (.closure unset index)

/-- The value of the last variable of a declaration, if it is a constant that is known now. -/
def knownValue? (names : List (String × LocalAttribute)) (v : Values) : Option Constant :=
  match names.getLast? with
  | some (_, .const) => if names.length = v.count then v.last.constant? else none
  | _ => none

/-- Refuses more than one variable that has to be closed. -/
def checkClosing (names : List (String × LocalAttribute)) : Drafting Unit := do
  let closing := names.filter fun n => n.2 == .close
  if 1 < closing.length then fail 0 "multiple to-be-closed variables in local list"
  if !closing.isEmpty then changeBlock fun b => { b with closing := true }

/-- Brings variables with values into scope. -/
def declareValues (names : List (String × LocalAttribute)) (v : Values) : Drafting Unit := do
  let kinds := names.map fun n => (n.1, VariableKind.ofAttribute n.2)
  match knownValue? names v, names.getLast? with
  | some c, some (name, _) =>
    declare kinds.dropLast
    change fun d =>
      { d with locals := { name, kind := .known c, place := unset } :: d.locals }
  | _, _ =>
    adjust names.length v
    declare kinds
  checkClosing names

/-- Returns the values of expressions. A call alone is the result of the function, unless a variable
has to be closed after it. -/
def returnValues (v : Values) : Drafting Unit := do
  let level ← level
  if v.isOpen then
    setCount v.last none
    match v.last.held with
    | .call position first =>
      if v.count = 1 ∧ !(← block).closing then
        rewrite position fun
          | .call _ args _ => .tailCall first args
          | i => i
    | _ => pure ()
    let _ ← emit 0 (.result level none)
  else if v.count = 1 then
    let p ← toAny v.last
    let _ ← emit 0 (.resultOne p)
  else
    if v.count ≠ 0 then
      let _ ← toNext v.last
    let _ ← emit 0 (.result level (some v.count))

/-- Whether only labels are left in a block. -/
def onlyLabels (rest : Block) : Bool := rest.all Statement.isLabel

mutual

/-- Writes an expression. -/
def expression : Expr → Drafting Operand
  | .nil => return { held := .constant .nil }
  | .bool b => return { held := .constant (.bool b) }
  | .number n => return { held := .constant (.number n) }
  | .string b => return { held := .constant (.string b) }
  | .varargs => do
    if !(← current).variadic then fail 0 "cannot use '...' outside a vararg function"
    return { held := .varargs (← emit 0 (.varargs unset none)) }
  | .function params variadic body => do
    openFunction params variadic (Sharing.names body)
    statements true body
    let o ← endFunction
    return { held := .place (← toNext o) }
  | .name line n => named line n
  | .index line object key => do
    let o ← expression object
    let o ← toHolder o
    let k ← expression key
    let k ← toValue k
    return { held := ← field line o k }
  | .call line callee args => do
    let o ← expression callee
    let f ← toNext o
    let v ← expressions args
    let count ← spread v
    callFrom line f.register count
  | .methodCall fieldLine line object name args => do
    let o ← expression object
    let p ← toAny o
    release p.register
    let first := (← current).used
    reserve 2
    let key ← toSource { held := .constant (.ofText name) }
    let _ ← emit fieldLine (.getMethod first p key)
    match key with
    | .place k => release k.register
    | .constant _ => pure ()
    let v ← expressions args
    let count ← spread v
    callFrom line first (count.map (· + 1))
  | .unary line op e => do
    let o ← expression e
    unary line op o
  | .binary line op left right => do
    let a ← expression left
    let a ← leftOperand op a
    let b ← expression right
    binary line op a b
  | .and left right => do
    let a ← expression left
    let jumps ← goIfTrue a
    let b ← expression right
    let b ← settle b
    return { b with whenFalse := b.whenFalse ++ jumps }
  | .or left right => do
    let a ← expression left
    let jumps ← goIfFalse a
    let b ← expression right
    let b ← settle b
    return { b with whenTrue := b.whenTrue ++ jumps }
  | .single e => do
    let o ← expression e
    settle o
  | .table fields => do
    let table := (← current).used
    let position ← emit 0 (.newTable table 0 0)
    reserve 1
    let f ← tableFields { table } fields
    let items ← closeItems f
    rewrite position fun _ => .newTable table items f.entries
    return { held := .place ⟨table, false⟩ }

/-- Writes expressions. All but the last one are brought into registers. -/
def expressions : List Expr → Drafting Values
  | [] => return Values.none
  | [e] => do
    let o ← expression e
    return ⟨1, o⟩
  | e :: rest => do
    let o ← expression e
    let _ ← toNext o
    let v ← expressions rest
    return { v with count := v.count + 1 }

/-- Writes the fields of a table. -/
def tableFields (f : Filling) : List Field → Drafting Filling
  | [] => return f
  | .item e :: rest => do
    let f ← closeItem f
    let o ← expression e
    tableFields { f with item := some o, waiting := f.waiting + 1 } rest
  | .entry line key value :: rest => do
    let f ← closeItem f
    let used := (← current).used
    let k ← expression key
    let k ← toValue k
    let target ← field line { held := .place ⟨f.table, false⟩ } k
    let o ← expression value
    match target with
    | .field _ object key => store line (.field object key) o
    | _ => pure ()
    change fun d => { d with used }
    tableFields { f with entries := f.entries + 1 } rest

/-- Writes the targets of an assignment, behind those given from the last one on. -/
def assignTargets (found : List AssignTarget) : List Expr → Drafting (List AssignTarget)
  | [] => return found
  | .index line object key :: rest => do
    let o ← expression object
    let o ← toHolder o
    let k ← expression key
    let k ← toValue k
    match ← field line o k with
    | .field _ object key => assignTargets (.field object key :: found) rest
    | _ => fail line "cannot assign to this expression"
  | .name line n :: rest => do
    let target ← namedTarget line n
    let found ← keepCopies found target
    assignTargets (target :: found) rest
  | _ :: _ => fail 0 "cannot assign to this expression"

/-- Writes a statement. -/
def statement : Statement → Drafting Unit
  | .declare names values => do
    checkVariables names.length
    let v ← expressions values
    declareValues names v
  | .declareFunction name params variadic body => do
    checkVariables 1
    declare [(name, .plain)]
    openFunction params variadic (Sharing.names body)
    statements true body
    let o ← endFunction
    let p ← next
    let shared := (← current).sharedNames.contains name
    bringTo { p with shared } o
  | .assign line targets values => do
    let targets ← assignTargets [] targets
    let v ← expressions values
    assignAll line targets v
  | .evaluate e => do
    let o ← expression e
    setCount o (some 0)
  | .block body => do
    enterBlock false
    statements true body
    leaveBlock
  | .loopWhile condition body => do
    let start ← mark
    let o ← expression condition
    let exits ← goIfTrue o
    enterBlock true
    enterBlock false
    statements true body
    leaveBlock
    let back ← jump
    land back none start
    leaveBlock
    landHere exits
  | .loopUntil body condition => do
    let start ← mark
    enterBlock true
    enterBlock false
    statements false body
    let o ← expression condition
    let repeats ← goIfTrue o
    leaveBlock
    landAll repeats start
    leaveBlock
  | .branch condition body otherwise => do
    let o ← expression condition
    let exits ← goIfTrue o
    enterBlock false
    statements true body
    leaveBlock
    if otherwise.isEmpty then landHere exits
    else
      let around ← jump
      landHere exits
      enterBlock false
      statements true otherwise
      leaveBlock
      landHere [around]
  | .loopCount line name bounds body => do
    enterBlock true
    checkVariables 4
    let first := (← current).used
    loopBounds bounds
    if bounds.length = 2 then
      let step ← next
      let _ ← emit 0 (.load step (.ofInt 1))
    declareHidden 3
    let start ← emit line (.countStart first 0)
    enterBlock false
    declare [(name, .plain)]
    reserve 1
    enterBlock false
    statements true body
    leaveBlock
    leaveBlock
    let back ← mark
    let _ ← emit line (.countNext first (start + 1))
    rewrite start (·.withTarget (back + 1))
    leaveBlock
  | .loopEach line names sources body => do
    enterBlock true
    checkVariables (4 + names.length)
    let first := (← current).used
    let v ← expressions sources
    adjust 4 v
    declareHidden 4
    changeBlock fun b => { b with closing := true }
    ensure 3
    let start ← skip
    enterBlock false
    declare (names.map fun n => (n, .plain))
    reserve names.length
    enterBlock false
    statements true body
    leaveBlock
    leaveBlock
    landHere [start]
    let _ ← emit line (.eachCall first names.length)
    let _ ← emit line (.eachNext first (start.position + 1))
    leaveBlock
  | .leave => jumpTo 0 loopExit
  | .result values => do
    let v ← expressions values
    returnValues v
  | .jump line label => jumpTo line label
  | .label _ => pure ()

/-- Writes the bounds of a loop, each into the next register. -/
def loopBounds : List Expr → Drafting Unit
  | [] => pure ()
  | e :: rest => do
    let o ← expression e
    let _ ← toNext o
    loopBounds rest

/-- Writes the statements of a block. `closing` says whether its variables go out of scope at its
end, which is not so where a condition follows. -/
def statements (closing : Bool) : List Statement → Drafting Unit
  | [] => pure ()
  | s :: rest => do
    match s.label? with
    | some n => newLabel n (closing && onlyLabels rest)
    | none => statement s
    releaseAll
    statements closing rest

end

end Drafting

namespace FunctionCode

/-- The code of a function outside of all functions. The variables that it has from outside are in
cells, in the given order. -/
def ofBody (outers : List String) (params : List String) (variadic : Bool) (body : Block) :
    Except SyntaxFault FunctionCode := do
  let outer (name : String) : OuterVariable := { name, kind := .plain, capture := .outer 0 }
  let write : Drafting Unit := do
    Drafting.openFunction params variadic (Sharing.names body)
    Drafting.change fun d => { d with outers := (outers.map outer).toArray }
    Drafting.statements true body
    let _ ← Drafting.endFunction
  let ((), d) ← write.run { current := {} }
  match d.current.functions[0]? with
  | some f => return f
  | none => throw ⟨0, "no function"⟩

/-- The code of a source, as a function that takes any arguments and has the table of globals. -/
def ofSource (source : ByteArray) : Except SyntaxFault FunctionCode := do
  ofBody ["_ENV"] [] true (← Block.read source)

end FunctionCode

end StoredRoutine.Script
