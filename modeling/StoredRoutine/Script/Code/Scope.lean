import StoredRoutine.Script.Code.Operand
import StoredRoutine.Script.Syntax

/-!
# `StoredRoutine.Script.Code.Scope`: shared variables, blocks, labels and jumps

A variable whose name occurs in a function inside has to outlive the call that made it. What is
found here are the names in functions inside, whatever they stand for there; a variable that is
taken to be shared without need behaves in no other way.

A label is seen in its block, also from blocks inside it, but not from functions inside it. A jump
may not lead into the scope of a local variable; where a label stands at the end of its block the
variables of the block are taken to be out of scope. Leaving a loop is a jump to a label behind it.
-/

set_option autoImplicit false

namespace StoredRoutine.Script.Sharing

mutual

/-- Adds the names of an expression, if it is inside a function, and those in functions inside. -/
def ofExpr (inside : Bool) : Expr → List String → List String
  | .name _ n, found => if inside && !found.contains n then n :: found else found
  | .function _ _ body, found => ofBlock true body found
  | .index _ object key, found => ofExpr inside key (ofExpr inside object found)
  | .call _ callee args, found => ofExprs inside args (ofExpr inside callee found)
  | .methodCall _ _ object _ args, found => ofExprs inside args (ofExpr inside object found)
  | .unary _ _ e, found => ofExpr inside e found
  | .binary _ _ a b, found => ofExpr inside b (ofExpr inside a found)
  | .and a b, found => ofExpr inside b (ofExpr inside a found)
  | .or a b, found => ofExpr inside b (ofExpr inside a found)
  | .single e, found => ofExpr inside e found
  | .table fields, found => ofFields inside fields found
  | _, found => found

/-- The same for expressions. -/
def ofExprs (inside : Bool) : List Expr → List String → List String
  | [], found => found
  | e :: rest, found => ofExprs inside rest (ofExpr inside e found)

/-- The same for the fields of a table expression. -/
def ofFields (inside : Bool) : List Field → List String → List String
  | [], found => found
  | .item e :: rest, found => ofFields inside rest (ofExpr inside e found)
  | .entry _ k v :: rest, found => ofFields inside rest (ofExpr inside v (ofExpr inside k found))

/-- The same for a statement. -/
def ofStatement (inside : Bool) : Statement → List String → List String
  | .declare _ values, found => ofExprs inside values found
  | .declareFunction _ _ _ body, found => ofBlock true body found
  | .assign _ targets values, found => ofExprs inside values (ofExprs inside targets found)
  | .evaluate e, found => ofExpr inside e found
  | .block body, found => ofBlock inside body found
  | .loopWhile condition body, found => ofBlock inside body (ofExpr inside condition found)
  | .loopUntil body condition, found => ofExpr inside condition (ofBlock inside body found)
  | .branch condition body otherwise, found =>
    ofBlock inside otherwise (ofBlock inside body (ofExpr inside condition found))
  | .loopCount _ _ bounds body, found => ofBlock inside body (ofExprs inside bounds found)
  | .loopEach _ _ sources body, found => ofBlock inside body (ofExprs inside sources found)
  | .result values, found => ofExprs inside values found
  | _, found => found

/-- The same for a block. -/
def ofBlock (inside : Bool) : List Statement → List String → List String
  | [], found => found
  | s :: rest, found => ofBlock inside rest (ofStatement inside s found)

end

/-- The names that occur in functions inside a function with the given body. The table of globals
may always be among them. -/
def names (body : Block) : List String := ofBlock false body ["_ENV"]

end StoredRoutine.Script.Sharing

namespace StoredRoutine.Script.Drafting

/-- The label behind a loop. No script can write it. -/
def loopExit : String := "break"

/-- Changes the innermost block. -/
def changeBlock (f : BlockDraft → BlockDraft) : Drafting Unit :=
  change fun d =>
    match d.blocks with
    | [] => d
    | b :: rest => { d with blocks := f b :: rest }

/-- The innermost block. -/
def block : Drafting BlockDraft := do
  return ((← current).blocks.head?).getD { outside := 0, isLoop := false, closing := false }

/-- Starts a block. -/
def enterBlock (isLoop : Bool) : Drafting Unit := do
  let closing := (← block).closing
  change fun d =>
    { d with blocks := { outside := d.locals.length, isLoop, closing } :: d.blocks }

/-- The label of a name in sight. -/
def visibleLabel? (name : String) : Drafting (Option LabelPoint) := do
  return ((← current).blocks.flatMap (·.labels)).find? fun l => l.name == name

/-- Leads the jumps of the innermost block that wait for a label there. -/
def landJumps (l : LabelPoint) : Drafting Unit := do
  let waiting := (← block).jumps
  (waiting.filter fun j => j.label == l.name).forM fun j => do
    if j.inScope < l.inScope then
      fail j.line s!"<goto {l.name}> jumps into the scope of a local variable"
    land ⟨j.position, false⟩ none l.position
  changeBlock fun b => { b with jumps := waiting.filter fun j => j.label != l.name }

/-- Puts a label at the next position, at the end of its block or not. -/
def putLabel (name : String) (isLast : Bool) : Drafting Unit := do
  let here ← mark
  let outside := (← block).outside
  let inside := (← current).locals.length
  let inScope := if isLast then outside else inside
  let l : LabelPoint := { name, position := here, inScope }
  changeBlock fun b => { b with labels := l :: b.labels }
  landJumps l

/-- Ends a block. The jumps that still wait are those of the block around it. -/
def leaveBlock : Drafting Unit := do
  let b ← block
  change fun d => { d with locals := d.locals.drop (d.locals.length - b.outside) }
  if b.isLoop then putLabel loopExit false
  releaseAll
  let waiting := (← block).jumps.map fun j => { j with inScope := b.outside }
  change fun d => { d with blocks := d.blocks.tail }
  match (← current).blocks, waiting with
  | [], j :: _ =>
    if j.label = loopExit then fail j.line "break outside a loop"
    else fail j.line s!"no visible label '{j.label}' for goto"
  | _, _ => changeBlock fun b => { b with jumps := b.jumps ++ waiting }

/-- Jumps to a label, which may come later. -/
def jumpTo (line : Nat) (label : String) : Drafting Unit := do
  let j ← jump
  match ← visibleLabel? label with
  | some l => land j none l.position
  | none =>
    let inScope := (← current).locals.length
    let waiting : WaitingJump := { label, line, position := j.position, inScope }
    changeBlock fun b => { b with jumps := waiting :: b.jumps }

/-- Puts the label that a script has written. -/
def newLabel (name : String) (isLast : Bool) : Drafting Unit := do
  if (← visibleLabel? name).isSome then fail 0 s!"label '{name}' already defined"
  else putLabel name isLast

end StoredRoutine.Script.Drafting
