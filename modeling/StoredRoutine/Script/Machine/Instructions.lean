import StoredRoutine.Script.Counter
import StoredRoutine.Script.Machine.Fields

/-!
# `StoredRoutine.Script.Machine.Instructions`: what instructions do

An instruction that needs a call waits for it as a caller. `deliver` goes on with an instruction
whose call has returned; until then nothing of its result is to be seen.
-/

set_option autoImplicit false

namespace StoredRoutine.Script.Machine

/-- Goes on with the next instruction. -/
def go (h : Heap) (c : Control) (a : Activation) : Step := .next h (c.withFocus (.run a))

/-- Goes on with the instruction at a position. -/
def goTo (h : Heap) (c : Control) (a : Activation) (next : Nat) : Step := go h c { a with next }

/-- Puts a value to its place. -/
def put (h : Heap) (c : Control) (a : Activation) (p : Place) (v : Value) : Step :=
  if p.shared then go (h.write (a.cell p.register) v) c a
  else go h c (a.setRegister p.register v)

/-- Puts a value that was asked for to its place. -/
def receive (h : Heap) (c : Control) (a : Activation) (dest : Place) (asked : Asked) : Step :=
  match asked with
  | .value v => put h c a dest v
  | asked =>
    let top := a.top
    resolve h (c.push (.script a)) top asked

/-! ### Fields and tables -/

/-- Sets a field. -/
def store (h : Heap) (c : Control) (a : Activation) (object key value : Value) : Step :=
  match storePlace h key value maxHandlers object with
  | .entry id =>
    match Library.keyFault? key with
    | some text => .next h (c.raiseText a.place text)
    | none => go (h.rawSet id key value) c a
  | .asked asked =>
    let top := a.top
    resolve h (c.push (.script a)) top asked

/-- Enters the values of registers into a table. -/
def fillTable (h : Heap) (a : Activation) (table items : Nat) (count : Option Nat) : Heap :=
  match a.register table with
  | .table id =>
    let values := a.valuesFrom (table + 1) count
    h.modifyTable id fun t => t.fill items values
  | _ => h

/-! ### Operators -/

/-- Joins a value with those on its left, the nearest first, as far as no handler is needed. Answers
those that are left. -/
def join (h : Heap) : List Value → Value → Asked × List Value
  | [], right => (.value right, [])
  | v :: left, right =>
    match Operators.concat h v right with
    | .value s => join h left s
    | applied => (.ofApplied applied, left)

/-- Joins a value with those on its left, the nearest first. -/
def joinInto (h : Heap) (c : Control) (a : Activation) (dest : Nat) (left : List Value)
    (right : Value) : Step :=
  match join h left right with
  | (.value v, _) => go h c (a.setRegister dest v)
  | (asked, left) =>
    let top := a.top
    resolve h (c.push (.concat a left)) top asked

/-- Joins values, given from the last one on. -/
def joinAll (h : Heap) (c : Control) (a : Activation) (dest : Nat) : List Value → Step
  | [] => go h c a
  | last :: left => joinInto h c a dest left last

/-- Goes on after a comparison. -/
def decideOn (h : Heap) (c : Control) (a : Activation) (v : Value) (holds : Bool) (target : Nat) :
    Step :=
  if v.isTrue == holds then goTo h c a target else go h c a

/-! ### Loops -/

/-- Starts a round of a counting loop. -/
def countRound (h : Heap) (c : Control) (a : Activation) (first : Nat) (k : Counter) : Step :=
  go h c (a.setRegisters first [k.value, k.bound, k.step, k.value])

/-- The counter of a loop in progress. -/
def counterOf (a : Activation) (first : Nat) : Counter :=
  .ofRegisters (a.register first) (a.register (first + 1)) (a.register (first + 2))

/-- Starts a counting loop, or skips it. -/
def startCounting (h : Heap) (c : Control) (a : Activation) (first exit : Nat) : Step :=
  match Counter.start? h (a.register first) (a.register (first + 1)) (a.register (first + 2)) with
  | .error text => .next h (c.raiseText a.place text)
  | .ok none => goTo h c a exit
  | .ok (some k) => countRound h c a first k

/-! ### Calls -/

/-- The function that a value stands for, and its arguments, with so many handlers to go. -/
def callee (h : Heap) : Nat → Value → List Value → Value × List Value
  | 0, f, args => (f, args)
  | left + 1, f, args =>
    if f.isFunction then (f, args)
    else
      let handler := h.handler f "__call"
      if handler.isNil then (f, args) else callee h left handler (f :: args)

/-- Calls the value in a register. -/
def callFrom (h : Heap) (c : Control) (a : Activation) (first : Nat) (args : Option Nat) : Step :=
  let f := a.register first
  let values := a.valuesFrom (first + 1) args
  let position := a.call.base + first
  .next h ((c.push (.script a)).withFocus (.call position f values))

/-- A call in the place of the function in progress. Only a function written in a script takes its
place; any other one is called from it. -/
def callInstead (h : Heap) (c : Control) (a : Activation) (first : Nat) (args : Option Nat) :
    Step :=
  let (f, values) := callee h maxLevel (a.register first) (a.valuesFrom (first + 1) args)
  match f with
  | .closure _ => .next h (c.withFocus (.call a.call.position f values))
  | f =>
    let position := a.call.base + first
    .next h ((c.push (.script a)).withFocus (.call position f values))

/-- Makes a function. -/
def makeClosure (h : Heap) (a : Activation) (index : Nat) : Value × Heap :=
  let code := a.call.code.functions.getD index default
  let outers := code.captures.map fun
    | .cell r => a.cell r
    | .outer i => a.outer i
  let (id, h) := h.newClosure { code, outers, chunk := a.call.chunk }
  (.closure id, h)

/-- Puts the further arguments into registers. -/
def spreadArguments (h : Heap) (c : Control) (a : Activation) (dest : Place) (count : Option Nat) :
    Step :=
  let values := a.call.varargs
  match count with
  | some 1 => put h c a dest (values.headD .nil)
  | some n => go h c (a.setCount dest.register n values)
  | none => go h c { a with spreadFrom := dest.register, spread := values }

/-! ### Instructions -/

/-- Executes an instruction. The activation has the number of the next one already. -/
def perform (h : Heap) (c : Control) (a : Activation) : Instruction → Step
  | .load dest v => put h c a dest v.value
  | .loadNils first count => go h c (a.setCount first count [])
  | .copy dest source =>
    let v := a.get h source
    put h c a dest v
  | .getOuter dest i =>
    let v := h.read (a.outer i)
    put h c a dest v
  | .setOuter i source =>
    let v := a.get h source
    go (h.write (a.outer i) v) c a
  | .getField dest holder key =>
    let object := a.holder h holder
    let key := a.operand h key
    let asked := read h object key
    receive (noticed h object key) c a dest asked
  | .setField holder key value =>
    let object := a.holder h holder
    let key := a.operand h key
    let value := a.operand h value
    store h c a object key value
  | .getMethod first p key =>
    let object := a.get h p
    let key := a.operand h key
    let asked := read h object key
    receive h c (a.setRegister (first + 1) object) ⟨first, false⟩ asked
  | .newTable dest items entries =>
    let (id, h) := h.newTable (Table.withRoom items entries)
    go h c (a.setRegister dest (.table id))
  | .fill table items count => go (fillTable h a table items count) c a
  | .unary dest .length p =>
    let v := a.get h p
    let (asked, h) := lengthOf h v
    receive h c a dest asked
  | .unary dest op p =>
    let applied := Operators.unary h op (a.get h p)
    receive h c a dest (.ofApplied applied)
  | .arith dest op left right =>
    let applied := Operators.arith h op (a.operand h left) (a.operand h right)
    receive h c a dest (.ofApplied applied)
  | .concat first count =>
    let values := (a.slice first count).reverse
    joinAll h c a first values
  | .jump target => goTo h c a target
  | .skip target => goTo h c a target
  | .branch condition holds keep target =>
    let v := a.get h condition
    if v.isTrue == holds then
      match keep with
      | some p => put h c { a with next := target } p v
      | none => goTo h c a target
    else go h c a
  | .compare op left right holds target =>
    match Operators.compare h op (a.operand h left) (a.operand h right) with
    | .value v => decideOn h c a v holds target
    | applied =>
      let top := a.top
      resolve h (c.push (.script a)) top (.ofApplied applied)
  | .call first args _ => callFrom h c a first args
  | .tailCall first args => callInstead h c a first args
  | .result first count => .next h (c.withFocus (.give (a.valuesFrom first count)))
  | .resultOne p => .next h (c.withFocus (.give [a.get h p]))
  | .varargs dest count => spreadArguments h c a dest count
  | .closure dest i =>
    let (v, h) := makeClosure h a i
    put h c a dest v
  | .share r =>
    let (cell, h) := h.newCell (a.register r)
    go h c (a.setCell r cell)
  | .countStart first exit => startCounting h c a first exit
  | .countNext first body =>
    match (counterOf a first).next? with
    | some k => countRound h c { a with next := body } first k
    | none => go h c a
  | .eachCall first _ =>
    let f := a.register first
    let args := [a.register (first + 1), a.register (first + 2)]
    let position := a.call.base + first + 4
    .next h ((c.push (.script a)).nest position f args)
  | .eachNext first body =>
    let v := a.register (first + 4)
    if v.isNil then go h c a else goTo h c (a.setRegister (first + 2) v) body

/-- The instruction at a position. Behind the last one there is the end of the function. -/
def instructionAt (a : Activation) (i : Nat) : Instruction :=
  a.call.code.code.getD i (.result 0 (some 0))

/-- Executes the next instruction. -/
def execute (h : Heap) (c : Control) (a : Activation) : Step :=
  let i := instructionAt a a.next
  perform h c { a with next := a.next + 1 } i

/-- Goes on with the instruction in progress when its call has returned. -/
def deliver (h : Heap) (c : Control) (a : Activation) (values : List Value) : Step :=
  let first := values.headD .nil
  match instructionAt a (a.next - 1) with
  | .call dest _ (some count) => go h c (a.setCount dest count values)
  | .call dest _ none => go h c { a with spreadFrom := dest, spread := values }
  | .tailCall dest _ => go h c { a with spreadFrom := dest, spread := values }
  | .getField dest .. => put h c a dest first
  | .unary dest .. => put h c a dest first
  | .arith dest .. => put h c a dest first
  | .getMethod dest .. => go h c (a.setRegister dest first)
  | .compare _ _ _ holds target => decideOn h c a first holds target
  | .eachCall dest count => go h c (a.setCount (dest + 4) count values)
  | _ => go h c a

/-- Goes on with an instruction that joins strings when a handler has joined two of them. -/
def deliverJoined (h : Heap) (c : Control) (a : Activation) (left values : List Value) : Step :=
  match instructionAt a (a.next - 1) with
  | .concat dest _ => joinInto h c a dest left (values.headD .nil)
  | _ => go h c a

end StoredRoutine.Script.Machine
