import StoredRoutine.Script.Syntax
import StoredRoutine.Script.Token

/-!
# `StoredRoutine.Script.Parser`: from tokens to trees

Recursive descent with one token of lookahead; binary operators are joined by their binding
powers. Statements and expressions may be nested only so deep. Each function takes fuel, one unit
for each call of another one; `Block.read` gives enough for every source, since all but a fixed
number of calls in a row take a token.

The reader knows on which line the last token that it took has ended. A value that is needed now is
needed on that line, which `needed` writes into its expression.
-/

set_option autoImplicit false

namespace StoredRoutine.Script

/-- How far a source is read. -/
structure Unread where
  tokens : List Lexeme
  /-- The line on which the last token that was taken has ended. -/
  lastLine : Nat := 1
  /-- How many statements and expressions are begun and not ended. -/
  depth : Nat := 0

/-- Reads a tree off the front of tokens. -/
abbrev Parser : Type → Type := StateT Unread (Except SyntaxFault)

namespace Parser

/-- The next token. -/
def peek? : Parser (Option Token) := do return (← get).tokens.head?.map (·.token)

/-- The line of the next token; zero at the end. -/
def line : Parser Nat := do return ((← get).tokens.head?.map (·.line)).getD 0

/-- The line of the last token that was taken. -/
def lastLine : Parser Nat := do return (← get).lastLine

/-- Takes the next token away. -/
def advance : Parser Unit :=
  modify fun u =>
    match u.tokens with
    | [] => u
    | l :: rest => { u with tokens := rest, lastLine := l.line }

/-- The expression, whose value is needed now. -/
def needed (e : Expr) : Parser Expr := do return e.neededAt (← lastLine)

/-- The source is wrong at the next token. -/
def fail {α : Type} (text : String) : Parser α := do throw ⟨← line, text⟩

/-- Whether the next token is the symbol. -/
def atSymbol (s : String) : Parser Bool := do
  match ← peek? with
  | some (.symbol t) => return s == t
  | _ => return false

/-- Whether the next token is the reserved word. -/
def atWord (s : String) : Parser Bool := do
  match ← peek? with
  | some (.reserved t) => return s == t
  | _ => return false

/-- Takes the symbol if it is next, and says whether it was. -/
def skipSymbol (s : String) : Parser Bool := do
  if ← atSymbol s then advance; return true
  else return false

/-- Takes the reserved word if it is next, and says whether it was. -/
def skipWord (s : String) : Parser Bool := do
  if ← atWord s then advance; return true
  else return false

/-- The symbol has to be next. -/
def expectSymbol (s : String) : Parser Unit := do
  if ← skipSymbol s then return () else fail s!"'{s}' expected"

/-- The reserved word has to be next. -/
def expectWord (s : String) : Parser Unit := do
  if ← skipWord s then return () else fail s!"'{s}' expected"

/-- A name has to be next. -/
def name : Parser String := do
  match ← peek? with
  | some (.name n) => advance; return n
  | _ => fail "name expected"

/-- Statements and expressions may be nested at most this deep. -/
def maxDepth : Nat := 199

/-- Reads something nested. -/
def deeper {α : Type} (p : Parser α) : Parser α := do
  if maxDepth ≤ (← get).depth then fail "chunk has too many levels"
  else
    modify fun u => { u with depth := u.depth + 1 }
    let a ← p
    modify fun u => { u with depth := u.depth - 1 }
    return a

/-- Whether a block ends here. -/
def atBlockEnd : Parser Bool := do
  match ← peek? with
  | none => return true
  | some (.reserved w) => return ["else", "elseif", "end", "until"].contains w
  | _ => return false

/-- How strongly a prefix operator binds its operand. -/
def unaryPower : Nat := 12

/-- The prefix operator that a token is. -/
def unaryOp? : Token → Option UnaryOp
  | .reserved "not" => some .not
  | .symbol "-" => some .neg
  | .symbol "#" => some .length
  | .symbol "~" => some .bitNot
  | _ => none

/-- A binary operator as it joins two expressions. -/
inductive Joint where
  | binary (op : BinaryOp)
  | and
  | or

/-- The binary operators by their spelling, with the powers that bind to the left and to the
right. -/
def joints : List (String × Joint × Nat × Nat) :=
  [("or", .or, 1, 1), ("and", .and, 2, 2),
    ("<", .binary (.compare .less), 3, 3), (">", .binary (.compare .greater), 3, 3),
    ("<=", .binary (.compare .lessEqual), 3, 3), (">=", .binary (.compare .greaterEqual), 3, 3),
    ("~=", .binary (.compare .notEqual), 3, 3), ("==", .binary (.compare .equal), 3, 3),
    ("|", .binary (.arith .bitOr), 4, 4), ("~", .binary (.arith .bitXor), 5, 5),
    ("&", .binary (.arith .bitAnd), 6, 6), ("<<", .binary (.arith .shiftLeft), 7, 7),
    (">>", .binary (.arith .shiftRight), 7, 7), ("..", .binary .concat, 9, 8),
    ("+", .binary (.arith .add), 10, 10), ("-", .binary (.arith .sub), 10, 10),
    ("*", .binary (.arith .mul), 11, 11), ("/", .binary (.arith .div), 11, 11),
    ("//", .binary (.arith .floorDiv), 11, 11), ("%", .binary (.arith .floorMod), 11, 11),
    ("^", .binary (.arith .pow), 14, 13)]

/-- The binary operator that a token is. -/
def joint? : Token → Option (Joint × Nat × Nat)
  | .symbol s => joints.lookup s
  | .reserved w => joints.lookup w
  | _ => none

/-- Joins two expressions, by an operator on one line that is read up to another line. -/
def Joint.apply (line lastLine : Nat) : Joint → Expr → Expr → Expr
  | .binary (.compare op), a, b => .binary lastLine (.compare op) a b
  | .binary op, a, b => .binary line op a b
  | .and, a, b => .and a b
  | .or, a, b => .or a b

/-- The attribute after the name of a local variable. -/
def localAttribute : Parser LocalAttribute := do
  if ← skipSymbol "<" then
    let mark ← name
    expectSymbol ">"
    match mark with
    | "const" => return .const
    | "close" => return .close
    | _ => fail s!"unknown attribute '{mark}'"
  else return .plain

/-- Whether an expression can be assigned to. -/
def isTarget : Expr → Bool
  | .name .. => true
  | .index .. => true
  | _ => false

/-- Whether an expression is a call. -/
def isCall : Expr → Bool
  | .call .. => true
  | .methodCall .. => true
  | _ => false

mutual

/-- An expression whose operators bind stronger than `power`. -/
def expr : Nat → Nat → Parser Expr
  | 0, _ => fail "expression too deep"
  | fuel + 1, power => deeper do
    let start ← line
    let first ←
      match (← peek?).bind unaryOp? with
      | some op => do
        advance
        let operand ← expr fuel unaryPower
        pure (Expr.unary start op (← needed operand))
      | none => simple fuel
    joined fuel power first

/-- Joins further operands to an expression, as long as the operators bind stronger than `power`. -/
def joined : Nat → Nat → Expr → Parser Expr
  | 0, _, _ => fail "expression too deep"
  | fuel + 1, power, left => do
    match (← peek?).bind joint? with
    | some (op, leftPower, rightPower) =>
      if power < leftPower then do
        let here ← line
        advance
        let left ← needed left
        let right ← expr fuel rightPower
        let right ← needed right
        joined fuel power (op.apply here (← lastLine) left right)
      else pure left
    | none => pure left

/-- An expression without operators. -/
def simple : Nat → Parser Expr
  | 0 => fail "expression too deep"
  | fuel + 1 => do
    match ← peek? with
    | some (.number n) => advance; pure (.number n)
    | some (.string s) => advance; pure (.string s)
    | some (.reserved "nil") => advance; pure .nil
    | some (.reserved "true") => advance; pure (.bool true)
    | some (.reserved "false") => advance; pure (.bool false)
    | some (.symbol "...") => advance; pure .varargs
    | some (.symbol "\x7b") => table fuel
    | some (.reserved "function") => do
      advance
      let (params, variadic, body) ← functionBody fuel
      pure (.function params variadic body)
    | _ => suffixed fuel

/-- A name or an expression in parentheses, with what is applied to it. -/
def suffixed : Nat → Parser Expr
  | 0 => fail "expression too deep"
  | fuel + 1 => do
    match ← peek? with
    | some (.name n) => do
      advance
      suffixes fuel (.name (← lastLine) n)
    | some (.symbol "(") => do
      advance
      let e ← expr fuel 0
      expectSymbol ")"
      suffixes fuel (.single (← needed e))
    | _ => fail "unexpected symbol"

/-- Applies fields, subscripts and calls to an expression. -/
def suffixes : Nat → Expr → Parser Expr
  | 0, _ => fail "expression too deep"
  | fuel + 1, e => do
    match ← peek? with
    | some (.symbol ".") => do
      let e ← needed e
      advance
      let key ← name
      suffixes fuel (.index (← lastLine) e (.string key.toUTF8))
    | some (.symbol "[") => do
      let e ← needed e
      let key ← subscript fuel
      suffixes fuel (.index (← lastLine) e key)
    | some (.symbol ":") => do
      advance
      let method ← name
      let fieldLine ← lastLine
      let e ← needed e
      let here ← line
      match ← arguments? fuel with
      | some args => suffixes fuel (.methodCall fieldLine here e method args)
      | none => fail "function arguments expected"
    | _ => do
      let callee ← needed e
      let here ← line
      match ← arguments? fuel with
      | some args => suffixes fuel (.call here callee args)
      | none => pure e

/-- An expression in brackets. -/
def subscript : Nat → Parser Expr
  | 0 => fail "expression too deep"
  | fuel + 1 => do
    expectSymbol "["
    let key ← expr fuel 0
    let key ← needed key
    expectSymbol "]"
    pure key

/-- The arguments of a call, if they are next. -/
def arguments? : Nat → Parser (Option (List Expr))
  | 0 => fail "expression too deep"
  | fuel + 1 => do
    match ← peek? with
    | some (.string s) => advance; pure (some [.string s])
    | some (.symbol "\x7b") => do
      let t ← table fuel
      pure (some [t])
    | some (.symbol "(") => do
      advance
      if ← skipSymbol ")" then pure (some [])
      else do
        let args ← exprList fuel
        expectSymbol ")"
        let here ← lastLine
        pure (some (args.dropLast ++ (args.getLast?.map (·.neededAt here)).toList))
    | _ => pure none

/-- Expressions separated by commas. All but the last one are needed after their commas. -/
def exprList : Nat → Parser (List Expr)
  | 0 => fail "expression too deep"
  | fuel + 1 => do
    let e ← expr fuel 0
    if ← skipSymbol "," then do
      let e ← needed e
      let rest ← exprList fuel
      pure (e :: rest)
    else pure [e]

/-- Expressions separated by commas, of which the last one is needed at its end. -/
def valueList : Nat → Parser (List Expr)
  | 0 => fail "expression too deep"
  | fuel + 1 => do
    let values ← exprList fuel
    let here ← lastLine
    pure (values.dropLast ++ (values.getLast?.map (·.neededAt here)).toList)

/-- An expression that is needed at its end. -/
def value : Nat → Parser Expr
  | 0 => fail "expression too deep"
  | fuel + 1 => do
    let e ← expr fuel 0
    needed e

/-- A table expression. -/
def table : Nat → Parser Expr
  | 0 => fail "expression too deep"
  | fuel + 1 => do
    expectSymbol "\x7b"
    let fields ← fieldList fuel
    pure (.table fields)

/-- The fields of a table expression, up to the closing brace. An item is needed when the field
after it, or the end, is reached. -/
def fieldList : Nat → Parser (List Field)
  | 0 => fail "expression too deep"
  | fuel + 1 => do
    if ← skipSymbol "\x7d" then pure []
    else do
      let f ← field fuel
      let comma ← skipSymbol ","
      let more ← if comma then pure true else skipSymbol ";"
      if more then do
        let separated ← lastLine
        let rest ← fieldList fuel
        let closed ← lastLine
        pure (f.neededAt (if rest.isEmpty then closed else separated) :: rest)
      else do
        expectSymbol "\x7d"
        pure [f.neededAt (← lastLine)]

/-- One field of a table expression. -/
def field : Nat → Parser Field
  | 0 => fail "expression too deep"
  | fuel + 1 => do
    match (← get).tokens with
    | ⟨.symbol "[", _⟩ :: _ => do
      let key ← subscript fuel
      expectSymbol "="
      let v ← value fuel
      pure (.entry (← lastLine) key v)
    | ⟨.name n, _⟩ :: ⟨.symbol "=", _⟩ :: _ => do
      advance
      advance
      let v ← value fuel
      pure (.entry (← lastLine) (.string n.toUTF8) v)
    | _ => do
      let item ← expr fuel 0
      pure (.item item)

/-- The parameters of a function, up to the closing parenthesis; the flag is set for further
arguments. -/
def parameters : Nat → Parser (List String × Bool)
  | 0 => fail "too many parameters"
  | fuel + 1 => do
    if ← skipSymbol "..." then do
      expectSymbol ")"
      pure ([], true)
    else do
      let n ← name
      if ← skipSymbol "," then do
        let (rest, variadic) ← parameters fuel
        pure (n :: rest, variadic)
      else do
        expectSymbol ")"
        pure ([n], false)

/-- The parameters and the body of a function, with its end. -/
def functionBody : Nat → Parser (List String × Bool × Block)
  | 0 => fail "function too deep"
  | fuel + 1 => do
    expectSymbol "("
    let (params, variadic) ← if ← skipSymbol ")" then pure ([], false) else parameters fuel
    let body ← block fuel
    expectWord "end"
    pure (params, variadic, body)

/-- Statements up to the end of the block. -/
def block : Nat → Parser Block
  | 0 => fail "block too deep"
  | fuel + 1 => do
    if ← atBlockEnd then pure []
    else if ← skipWord "return" then do
      let values ← deeper do
        if ← atBlockEnd then pure []
        else if ← atSymbol ";" then pure []
        else valueList fuel
      let _ ← skipSymbol ";"
      if ← atBlockEnd then pure [.result values] else fail "end of block expected"
    else do
      let first ← statement fuel
      let rest ← block fuel
      pure (first ++ rest)

/-- One statement; none for an empty one. -/
def statement : Nat → Parser Block
  | 0 => fail "statement too deep"
  | fuel + 1 => deeper do
    let start ← line
    match ← peek? with
    | some (.symbol ";") => advance; pure []
    | some (.symbol "::") => do
      advance
      let n ← name
      expectSymbol "::"
      pure [.label n]
    | some (.reserved w) =>
      match w with
      | "if" => do
        advance
        let s ← branches fuel
        pure [s]
      | "while" => do
        advance
        let condition ← value fuel
        expectWord "do"
        let body ← block fuel
        expectWord "end"
        pure [.loopWhile condition body]
      | "do" => do
        advance
        let body ← block fuel
        expectWord "end"
        pure [.block body]
      | "for" => do
        advance
        let s ← loopFor fuel
        pure [s]
      | "repeat" => do
        advance
        let body ← block fuel
        expectWord "until"
        let condition ← value fuel
        pure [.loopUntil body condition]
      | "function" => do
        advance
        let s ← functionStatement fuel start
        pure [s]
      | "local" => do
        advance
        if ← skipWord "function" then do
          let n ← name
          let (params, variadic, body) ← functionBody fuel
          pure [.declareFunction n params variadic body]
        else do
          let names ← localNames fuel
          let values ← if ← skipSymbol "=" then valueList fuel else pure []
          pure [.declare names values]
      | "break" => advance; pure [.leave]
      | "goto" => do
        advance
        let n ← name
        pure [.jump start n]
      | _ => do
        let s ← exprStatement fuel
        pure [s]
    | _ => do
      let s ← exprStatement fuel
      pure [s]

/-- The condition and the body of a branch, with the alternatives and the end. -/
def branches : Nat → Parser Statement
  | 0 => fail "statement too deep"
  | fuel + 1 => do
    let condition ← expr fuel 0
    expectWord "then"
    let condition ← needed condition
    let body ← block fuel
    if ← skipWord "elseif" then do
      let next ← branches fuel
      pure (.branch condition body [next])
    else do
      let otherwise ← if ← skipWord "else" then block fuel else pure []
      expectWord "end"
      pure (.branch condition body otherwise)

/-- A loop over a variable, after its first word. -/
def loopFor : Nat → Parser Statement
  | 0 => fail "statement too deep"
  | fuel + 1 => do
    let first ← name
    if ← skipSymbol "=" then do
      let bounds ← boundList fuel
      if bounds.length ≠ 2 ∧ bounds.length ≠ 3 then fail "'for' needs two or three numbers"
      else do
        expectWord "do"
        let here ← lastLine
        let body ← block fuel
        expectWord "end"
        pure (.loopCount here first bounds body)
    else do
      let more ← if ← skipSymbol "," then nameList fuel else pure []
      expectWord "in"
      let here ← line
      let sources ← valueList fuel
      expectWord "do"
      let body ← block fuel
      expectWord "end"
      pure (.loopEach here (first :: more) sources body)

/-- The bounds of a loop, each of which is needed at its end. -/
def boundList : Nat → Parser (List Expr)
  | 0 => fail "too many bounds"
  | fuel + 1 => do
    let bound ← value fuel
    if ← skipSymbol "," then do
      let rest ← boundList fuel
      pure (bound :: rest)
    else pure [bound]

/-- Names separated by commas. -/
def nameList : Nat → Parser (List String)
  | 0 => fail "too many names"
  | fuel + 1 => do
    let n ← name
    if ← skipSymbol "," then do
      let rest ← nameList fuel
      pure (n :: rest)
    else pure [n]

/-- The names of local variables, with their attributes. -/
def localNames : Nat → Parser (List (String × LocalAttribute))
  | 0 => fail "too many names"
  | fuel + 1 => do
    let n ← name
    let mark ← localAttribute
    if ← skipSymbol "," then do
      let rest ← localNames fuel
      pure ((n, mark) :: rest)
    else pure [(n, mark)]

/-- A function that is assigned to a name, a field or a method, after its first word, which is on
the given line. -/
def functionStatement : Nat → Nat → Parser Statement
  | 0, _ => fail "statement too deep"
  | fuel + 1, start => do
    let n ← name
    let (target, isMethod) ← functionName fuel (.name (← lastLine) n)
    let (params, variadic, body) ← functionBody fuel
    let params := if isMethod then "self" :: params else params
    pure (.assign start [target] [.function params variadic body])

/-- The fields after the first name of a function; the flag is set for a method. -/
def functionName : Nat → Expr → Parser (Expr × Bool)
  | 0, _ => fail "statement too deep"
  | fuel + 1, e => do
    let e ← needed e
    if ← skipSymbol "." then do
      let key ← name
      functionName fuel (.index (← lastLine) e (.string key.toUTF8))
    else if ← skipSymbol ":" then do
      let key ← name
      pure (.index (← lastLine) e (.string key.toUTF8), true)
    else pure (e, false)

/-- A call, or an assignment to names and fields. -/
def exprStatement : Nat → Parser Statement
  | 0 => fail "statement too deep"
  | fuel + 1 => do
    let e ← suffixed fuel
    let comma ← atSymbol ","
    let equals ← atSymbol "="
    if comma || equals then do
      let (targets, values) ← assignment fuel e
      pure (.assign (← lastLine) targets values)
    else if isCall e then pure (.evaluate e)
    else fail "unexpected expression"

/-- What is assigned to, from the given target on, and the values. A further target counts as
nested. -/
def assignment : Nat → Expr → Parser (List Expr × List Expr)
  | 0, _ => fail "statement too deep"
  | fuel + 1, target => do
    if isTarget target then
      if ← skipSymbol "," then do
        let next ← suffixed fuel
        let (targets, values) ← deeper (assignment fuel next)
        pure (target :: targets, values)
      else do
        expectSymbol "="
        let values ← valueList fuel
        pure ([target], values)
    else fail "cannot assign to this expression"

end

end Parser

/-- Reads a whole source. -/
def Block.read (source : ByteArray) : Except SyntaxFault Block := do
  let tokens ← Token.readAll source
  let (body, rest) ← (Parser.block (16 * tokens.length + 16)).run { tokens }
  match rest.tokens with
  | [] => return body
  | l :: _ => throw ⟨l.line, "end of source expected"⟩

end StoredRoutine.Script
