import StoredRoutine.Script.Number

/-!
# `StoredRoutine.Script.Syntax`: scripts as trees

Expressions and statements as they are written, with the lines that messages point to. A name
stands for a local variable, or for a field of the variable `_ENV`, which only its scope tells.

Reading a field is put off until its value is needed. The line of a name or a field is therefore
not where it is written, but where the script was read up to when its value was first needed.
-/

set_option autoImplicit false

namespace StoredRoutine.Script

/-- An operator with one operand. -/
inductive UnaryOp where
  | neg | not | length | bitNot
  deriving Repr, DecidableEq

/-- An operator that computes from two operands. -/
inductive ArithOp where
  | add | sub | mul | div | floorMod | pow | floorDiv
  | bitAnd | bitOr | bitXor | shiftLeft | shiftRight
  deriving Repr, DecidableEq

/-- An operator that compares two operands. -/
inductive CompareOp where
  | equal | notEqual | less | lessEqual | greater | greaterEqual
  deriving Repr, DecidableEq

/-- An operator with two operands, both of which are always evaluated. -/
inductive BinaryOp where
  | arith (op : ArithOp)
  | compare (op : CompareOp)
  | concat
  deriving Repr, DecidableEq

/-- The attribute of a local variable. -/
inductive LocalAttribute where
  | plain | const | close
  deriving Repr, DecidableEq

mutual

/-- An expression. -/
inductive Expr where
  | nil
  | bool (value : Bool)
  | number (value : Number)
  | string (bytes : ByteArray)
  /-- The further arguments of the function around. -/
  | varargs
  | function (params : List String) (variadic : Bool) (body : List Statement)
  | name (line : Nat) (name : String)
  | index (line : Nat) (object key : Expr)
  /-- The line is that of the start of the arguments. -/
  | call (line : Nat) (callee : Expr) (args : List Expr)
  /-- A call of a field with the object as the first argument. The first line is that of the name of
  the field. -/
  | methodCall (fieldLine line : Nat) (object : Expr) (name : String) (args : List Expr)
  /-- The line is that of the operator. -/
  | unary (line : Nat) (op : UnaryOp) (operand : Expr)
  /-- The line is that of the operator, or that of the end of a comparison. -/
  | binary (line : Nat) (op : BinaryOp) (left right : Expr)
  | and (left right : Expr)
  | or (left right : Expr)
  /-- An expression in parentheses has exactly one value. -/
  | single (e : Expr)
  | table (fields : List Field)

/-- A field of a table expression. -/
inductive Field where
  | item (value : Expr)
  | entry (line : Nat) (key value : Expr)

/-- A statement. -/
inductive Statement where
  | declare (names : List (String × LocalAttribute)) (values : List Expr)
  | declareFunction (name : String) (params : List String) (variadic : Bool)
      (body : List Statement)
  | assign (line : Nat) (targets values : List Expr)
  | evaluate (call : Expr)
  | block (body : List Statement)
  | loopWhile (condition : Expr) (body : List Statement)
  | loopUntil (body : List Statement) (condition : Expr)
  /-- Branches in order; the last alternative has no condition. -/
  | branch (condition : Expr) (body : List Statement) (otherwise : List Statement)
  /-- Counts a variable up or down by a step. The line is that of the start of the body. -/
  | loopCount (line : Nat) (name : String) (bounds : List Expr) (body : List Statement)
  /-- Calls an iterator for the values of variables. The line is that of the iterator. -/
  | loopEach (line : Nat) (names : List String) (sources : List Expr) (body : List Statement)
  | leave
  | result (values : List Expr)
  | jump (line : Nat) (label : String)
  | label (name : String)

end

instance : Inhabited Expr := ⟨.nil⟩
instance : Inhabited Statement := ⟨.leave⟩

/-- The expression, if its value is first needed at a line. -/
def Expr.neededAt (line : Nat) : Expr → Expr
  | .name _ n => .name line n
  | .index _ object key => .index line object key
  | e => e

/-- The field, if the value of an item is first needed at a line. -/
def Field.neededAt (line : Nat) : Field → Field
  | .item e => .item (e.neededAt line)
  | f => f

/-- The name of a label. -/
def Statement.label? : Statement → Option String
  | .label n => some n
  | _ => none

/-- Whether a statement is nothing but a label. -/
def Statement.isLabel (s : Statement) : Bool := s.label?.isSome

/-- The body of a script: a list of statements. -/
abbrev Block : Type := List Statement

end StoredRoutine.Script
