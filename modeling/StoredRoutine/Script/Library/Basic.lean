import StoredRoutine.Script.Library.Arguments

/-!
# `StoredRoutine.Script.Library.Basic`: types, tables as they are, and metatables

The functions here ask no metatable, except for the one that protects a metatable.
-/

set_option autoImplicit false

namespace StoredRoutine.Script.Library

/-- The value of a text in digits of the given base, with a sign. -/
def ofDigits? (base : Nat) (cs : List Char) : Option Int64 :=
  let body := ((cs.dropWhile Number.isSpace).reverse.dropWhile Number.isSpace).reverse
  let (negative, digits) :=
    match body with
    | '-' :: rest => (true, rest)
    | rest => (false, rest)
  let value? (c : Char) : Option Nat :=
    if c.isDigit then some (c.toNat - 48)
    else if c.isAlpha then some (c.toLower.toNat - 87)
    else none
  if digits.isEmpty then none
  else
    let n? := digits.foldlM (fun acc c => do
      let d ← value? c
      if d < base then some (base * acc + d) else none) 0
    n?.map fun n => Int64.ofInt (if negative then -(n : Int) else n)

/-- The number that a value stands for, in a base if one is given; nil if it stands for none. -/
def toNumber (args : List Value) : Answer Value := do
  if (argument args 1).isNil then
    let v ← any args 0
    return (v.numberForm?.map Value.number).getD .nil
  else
    let base ← whole args 1
    match given? args 0 with
    | some (.string b) =>
      if base < 2 ∨ 36 < base then throw (.argument 2 "base out of range")
      else return ((ofDigits? base.toInt.toNat (Text.byteChars b)).map Value.ofInt).getD .nil
    | v => throw (.argument 1 (expected "string" v))

/-- The number of further arguments, or those from a number on; a negative one counts from the
end. -/
def select (args : List Value) : Answer (List Value) :=
  let rest := args.tail
  match args.head? with
  | some (.string b) =>
    if b = "#".toUTF8 then .ok [.ofNat rest.length] else fromNumber rest
  | _ => fromNumber rest
where
  /-- The further arguments from a number on. -/
  fromNumber (rest : List Value) : Answer (List Value) := do
    let n ← whole args 0
    if n < 0 then
      let first := n.toInt + rest.length
      if first < 0 then throw (.argument 1 "index out of range") else return rest.drop first.toNat
    else if n = 0 then throw (.argument 1 "index out of range")
    else return rest.drop (n.toInt.toNat - 1)

/-- The metatable of a value, or what is shown instead of it. -/
def getMetatable (h : Heap) (v : Value) : Value :=
  match v with
  | .object .. => .bool false
  | .failure _ => .bool false
  | v =>
    match h.metatable? v with
    | none => .nil
    | some m =>
      let shown := h.rawGet m (.ofText "__metatable")
      if shown.isNil then .table m else shown

/-- Gives a table a metatable, or takes it away, unless the one it has is protected. -/
def setMetatable (h : Heap) (args : List Value) : Answer (List Value × Heap) := do
  let id ← table args 0
  let set (m : Option TableId) : Answer (List Value × Heap) :=
    if (h.handler (.table id) "__metatable").isNil then
      .ok ([.table id], h.modifyTable id fun t => { t with metatable := m })
    else .error (.message "cannot change a protected metatable")
  match given? args 1 with
  | some .nil => set none
  | some (.table m) => set (some m)
  | v => throw (.argument 2 (expected "nil or table" v))

/-- Whether a value can be the key of an entry, and if not, why. -/
def keyFault? : Value → Option String
  | .nil => some "table index is nil"
  | .number (.nan _) => some "table index is NaN"
  | _ => none

/-- Sets an entry of a table. -/
def rawSet (h : Heap) (args : List Value) : Answer (List Value × Heap) := do
  let id ← table args 0
  let key ← any args 1
  let value ← any args 2
  match keyFault? key with
  | some text => throw (.bare text)
  | none => return ([.table id], h.rawSet id key value)

/-- The length of a table or a string. -/
def rawLen (h : Heap) (args : List Value) : Answer (List Value × Heap) :=
  match given? args 0 with
  | some (.table id) =>
    let (n, h) := h.length id
    .ok ([.ofNat n], h)
  | some (.string b) => .ok ([.ofNat b.size], h)
  | _ => .error (.argument 1 "table or string expected")

/-- The next entry of a table. -/
def next (h : Heap) (args : List Value) : Answer (List Value) := do
  let id ← table args 0
  match (h.table id).next? (argument args 1) with
  | none => throw (.message "invalid key to 'next'")
  | some none => return [.nil]
  | some (some (k, v)) => return [k, v]

end StoredRoutine.Script.Library
