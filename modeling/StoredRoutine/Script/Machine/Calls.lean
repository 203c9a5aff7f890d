import StoredRoutine.Script.Library.Globals
import StoredRoutine.Script.Library.Lists
import StoredRoutine.Script.Machine.Coroutines
import StoredRoutine.Script.Machine.Fields

/-!
# `StoredRoutine.Script.Machine.Calls`: functions

A function written in a script gets an activation of its own, for which there has to be room on the
stack. Functions of the library answer at once, or call functions in turn and wait for them.

`table.concat` reads a list like a script does, so the metatable of the list may provide its length
and its items, by functions that have to be called. The length is asked for first, then the other
arguments are checked, then there is one item after the other.
-/

set_option autoImplicit false

namespace StoredRoutine.Script.Machine

/-- Whether a value is a list whose metatable is asked when its items are joined. -/
def isAskedList (h : Heap) : Value → Bool
  | .table id => (h.table id).metatable.isSome
  | .object .rows _ => true
  | _ => false

/-- Goes on with the next item, or with what was joined. -/
def joinNext (h : Heap) (c : Control) (position level : Nat) (j : Joining) : Step :=
  if j.last < j.number then .next h (c.withFocus (.give [.string j.before]))
  else
    let key := Value.ofInt j.number
    let asked := read h j.list key
    let room := position + libraryRoom
    resolve (noticed h j.list key) (c.push (.native (.joinedItem j) position level)) room asked

/-- Starts to join a list. -/
def joinList (h : Heap) (c : Control) (position : Nat) (args : List Value) : Step :=
  let (asked, h) := lengthOf h (args.headD .nil)
  resolve h (c.push (.native (.joinedLength args) position c.level)) (position + libraryRoom) asked

/-- The length is known. -/
def joinLength (h : Heap) (c : Control) (position level : Nat) (args : List Value)
    (length : Value) : Library.Answer Step :=
  match length.intForm? with
  | none => .error (.message "object length is not an integer")
  | some length => do
    let separator ← Library.stringOr args 1 ByteArray.empty
    let number ← Library.wholeOr args 2 1
    let last ← Library.wholeOr args 3 length
    return joinNext h c position level
      { list := args.headD .nil, separator, number, last, before := ByteArray.empty }

/-- An item is known. -/
def joinItem (h : Heap) (c : Control) (position level : Nat) (j : Joining) (item : Value) :
    Library.Answer Step :=
  match item.stringForm? with
  | none =>
    .error (.message s!"invalid value (at index {j.number.toInt}) in table for 'concat'")
  | some b =>
    let before := j.before ++ b
    if j.number = j.last then .ok (.next h (c.withFocus (.give [.string before])))
    else
      .ok (joinNext h c position level
        { j with number := j.number + 1, before := before ++ j.separator })

end StoredRoutine.Script.Machine

namespace StoredRoutine.Script.Machine

/-! ### Functions written in scripts -/

/-- The registers with which a function starts: its parameters, and nil in all others. -/
def startRegisters (code : FunctionCode) (args : List Value) : Array Value :=
  let given := (args.take code.params).toArray
  given ++ Array.replicate (code.size - given.size) .nil

/-- The activation of a function whose call is at a position. The further arguments stay below the
registers, with a second copy of the function above them. -/
def activationOf (c : Control) (position count : Nat) (f : Closure) (args : List Value) :
    Activation :=
  let code := f.code
  let below := if code.variadic then max count code.params + 1 else 0
  let varargs := if code.variadic then args.drop code.params else []
  let call : Call :=
    { code, outers := f.outers, chunk := f.chunk, varargs, position, base := position + 1 + below,
      level := c.level }
  { call, next := 0, registers := startRegisters code args, cells := #[] }

/-- How much of the stack a function needs at its start, with so many arguments. -/
def stackNeeded (code : FunctionCode) (count : Nat) : Nat :=
  if code.variadic then 1 + max count code.params + code.size + 1 else 1 + count + code.size

/-- Calls a function written in a script. -/
def callClosure (h : Heap) (c : Control) (position : Nat) (id : ClosureId) (args : List Value) :
    Step :=
  match h.closures[id.index]? with
  | none => .next h (c.fault "attempt to call a dead function")
  | some f =>
    let count := args.length
    if maxStack < position + stackNeeded f.code count then .next h (c.fault "stack overflow")
    else .next h (c.withFocus (.run (activationOf c position count f args)))

/-! ### Library functions -/

/-- Raises the fault of a library function. -/
def libraryFault (h : Heap) (c : Control) (b : Builtin) (f : Library.Fault) : Step :=
  match f with
  | .message text => .next h (c.fault text)
  | .bare text => .next h (c.withFocus (.raise (.ofText text)))
  | .argument n text =>
    .next h (c.fault s!"bad argument #{n} to '{Library.nameOf b}' ({text})")

/-- Goes on, or raises a fault. -/
def orFault (h : Heap) (c : Control) (b : Builtin) (answer : Library.Answer Step) : Step :=
  match answer with
  | .ok step => step
  | .error f => libraryFault h c b f

/-- Raises the first argument. A string gets the place of the call in front, of as many levels up as
the second argument says. -/
def raiseArgument (c : Control) (value : Value) (level : Int64) : Control :=
  match value with
  | .string b =>
    let place := if level ≤ 0 then [] else c.placeAbove (level.toInt.toNat - 1)
    c.withFocus (.raise (.string (Text.bytesOfChars place ++ b)))
  | v => c.withFocus (.raise v)

/-- The text of a value, by its metatable if that has a handler. -/
def textOf (h : Heap) (c : Control) (position : Nat) (v : Value) : Step :=
  match v with
  | .object .. => .request .objectText [v] position h c
  | .string _ => .next h (c.withFocus (.give [v]))
  | v =>
    let f := h.handler v "__tostring"
    if f.isNil then .next h (c.withFocus (.give [.string (h.display v)]))
    else .next h ((c.push (.native .text position c.level)).nest (position + 2) f [v])

/-- What traverses a table: the usual function, unless its metatable has a handler. -/
def traversalOf (h : Heap) (c : Control) (position : Nat) (v : Value) : Step :=
  let f := h.handler v "__pairs"
  if f.isNil then .next h (c.withFocus (.give [.builtin .next, v, .nil]))
  else .next h ((c.push (.native .traversal position c.level)).nest (position + 2) f [v])

/-- The item behind the given number, for a traversal in the order of the numbers. -/
def nextItem (h : Heap) (c : Control) (position : Nat) (list : Value) (number : Int64) : Step :=
  let key := Value.ofInt (number + 1)
  let asked := read h list key
  resolve (noticed h list key) (c.push (.native (.item (number + 1)) position c.level))
    (position + libraryRoom) asked

/-- The values for which the iterator in the order of the numbers goes on. -/
def itemValues (number : Int64) (v : Value) : List Value :=
  if v.isNil then [.nil] else [.ofInt number, v]

/-- Calls a function that the library alone answers. -/
def callLibrary (h : Heap) (c : Control) (b : Builtin) (args : List Value) : Step :=
  match Library.apply b args h with
  | .ok (vs, h) => .next h (c.withFocus (.give vs))
  | .error f => libraryFault h c b f

/-- Calls a function of the library. -/
def callBuiltin (h : Heap) (c : Control) (position : Nat) (b : Builtin) (args : List Value) :
    Step :=
  let answer (vs : List Value) : Step := .next h (c.withFocus (.give vs))
  let wrong (n : Nat) (text : String) : Step := libraryFault h c b (.argument n text)
  let onThread (run : ThreadId → Step) : Step :=
    match args with
    | .thread t :: _ => run t
    | _ => wrong 1 (Library.expected "coroutine" args.head?)
  let onFunction (run : Value → Step) : Step :=
    match args with
    | f :: _ => if f.isFunction then run f else wrong 1 (Library.expected "function" (some f))
    | [] => wrong 1 (Library.expected "function" none)
  let onValue (run : Value → Step) : Step :=
    match args with
    | v :: _ => run v
    | [] => wrong 1 "value expected"
  match b with
  | .assert => onValue fun v =>
    if v.isTrue then answer args
    else .next h (raiseArgument c (args.tail.headD (.ofText "assertion failed!")) 1)
  | .error =>
    match Library.wholeOr args 1 1 with
    | .ok level => .next h (raiseArgument c (args.headD .nil) level)
    | .error f => libraryFault h c b f
  | .pcall => onValue fun f =>
    .next h ((c.push (.native .guarded position c.level)).nest (position + 2) f args.tail)
  | .toText => onValue fun v => textOf h c position v
  | .pairs => onValue fun v => traversalOf h c position v
  | .ipairsNext =>
    match Library.whole args 1 with
    | .error f => libraryFault h c b f
    | .ok n => nextItem h c position (args.headD .nil) n
  | .coCreate => onFunction fun f =>
    let (t, h) := h.newThread f
    .next h (c.withFocus (.give [.thread t]))
  | .coWrap => onFunction fun f =>
    let (t, h) := h.newThread f
    .next h (c.withFocus (.give [.resumer t]))
  | .coResume => onThread fun t => resume h c t args.tail false
  | .coYield => yieldValues h c args
  | .coStatus => onThread fun t => answer [.ofText (statusOf h c t)]
  | .coRunning =>
    match c.running with
    | some t => answer [.thread t, .bool false]
    | none => answer [.thread ⟨0⟩, .bool true]
  | .coIsYieldable => answer [.bool c.canYield]
  | .tableConcat =>
    if isAskedList h (args.headD .nil) then joinList h c position args
    else orFault h c b ((Library.concat h args).map fun r => .next r.2 (c.withFocus (.give r.1)))
  | b => callLibrary h c b args

/-- Goes on with a function of the library when a call that it has made has returned. -/
def deliverNative (h : Heap) (c : Control) (n : Native) (position level : Nat)
    (values : List Value) : Step :=
  let give (values : List Value) : Step := .next h (c.withFocus (.give values))
  let first := values.headD .nil
  match n with
  | .guarded => give (.bool true :: values)
  | .text =>
    match first.stringForm? with
    | some b => give [.string b]
    | none => .next h (c.fault "'__tostring' must return a string")
  | .item number => give (itemValues number first)
  | .joinedLength args =>
    orFault h c .tableConcat (joinLength h c position level args first)
  | .joinedItem j => orFault h c .tableConcat (joinItem h c position level j first)
  | .traversal => give [first, values.getD 1 .nil, values.getD 2 .nil]
  | .service => give values

/-! ### Calls -/

/-- Whether there is room for a function of the library on the stack. -/
def hasRoom (position : Nat) (args : List Value) : Bool :=
  position + 1 + args.length + libraryRoom ≤ maxStack

/-- Calls a value. -/
def call (h : Heap) (c : Control) (position : Nat) (f : Value) (args : List Value) : Step :=
  match f with
  | .closure id => callClosure h c position id args
  | f =>
    if !hasRoom position args then .next h (c.fault "stack overflow")
    else
      match f with
      | .builtin b => callBuiltin h c position b args
      | .service s => .request s args position h c
      | .resumer t => resume h c t args true
      | v =>
        let f := h.handler v "__call"
        if f.isNil then .next h (c.fault (Operators.wrongOperand h "call" v))
        else .next h (c.withFocus (.call position f (v :: args)))

end StoredRoutine.Script.Machine
