import StoredRoutine.Json.Reader

/-!
# `StoredRoutine.Json.Skipping`: passing over values

A value that nobody asks for is passed over without being made. It has to follow the grammar, but
nothing else: containers may lie inside each other to any depth, numbers may be of any size, and a
code unit in a text may be half of a surrogate pair.
-/

set_option autoImplicit false

namespace StoredRoutine.Json

/-- Passes over the rest of a text after its opening quote. -/
def skipText : List Char → Except Nat (List Char)
  | [] => .error 0
  | '"' :: rest => .ok rest
  | '\\' :: 'u' :: a :: b :: c :: d :: rest =>
    if (codeUnit? a b c d).isSome then skipText rest else .error rest.length
  | '\\' :: c :: rest => if (simpleEscape? c).isSome then skipText rest else .error rest.length
  | c :: rest => if c.toNat < 0x20 ∨ c = '\\' then .error rest.length else skipText rest

/-- Passes over a fixed word. -/
def skipWord (word : String) (cs : List Char) : Except Nat (List Char) :=
  if word.toList.isPrefixOf cs then .ok (cs.drop word.length) else .error cs.length

/-- Passes over a value that is no container. -/
def skipScalar (cs : List Char) : Except Nat (List Char) :=
  match cs with
  | [] => .error 0
  | 'n' :: _ => skipWord "null" cs
  | 't' :: _ => skipWord "true" cs
  | 'f' :: _ => skipWord "false" cs
  | '"' :: rest => skipText rest
  | cs => (readNumberParts cs).map (·.2)

/-- Passes over the name of a member and the colon. -/
def skipName (cs : List Char) : Except Nat (List Char) :=
  match skipBlanks cs with
  | '"' :: rest => do
    match skipBlanks (← skipText rest) with
    | ':' :: rest => .ok rest
    | rest => .error rest.length
  | rest => .error rest.length

/-- A container that has been entered. -/
inductive Container where
  | array
  | object
  deriving Repr, DecidableEq

/-- Where the reader is among the containers that it has entered. -/
inductive SkipPoint where
  /-- A value comes next. -/
  | value
  /-- The innermost container has just been entered. -/
  | entered
  /-- A value has ended. -/
  | ended

/-- Passes over a value and all that is left of the containers around it, innermost first. The first
argument bounds the number of steps. -/
def skipFrom : Nat → SkipPoint → List Container → List Char → Except Nat (List Char)
  | 0, _, _, cs => .error cs.length
  | fuel + 1, .value, around, cs =>
    match skipBlanks cs with
    | '[' :: rest => skipFrom fuel .entered (.array :: around) rest
    | '\x7b' :: rest => skipFrom fuel .entered (.object :: around) rest
    | cs => do skipFrom fuel .ended around (← skipScalar cs)
  | fuel + 1, .entered, around, cs =>
    match around, skipBlanks cs with
    | .array :: around, ']' :: rest => skipFrom fuel .ended around rest
    | .object :: around, '\x7d' :: rest => skipFrom fuel .ended around rest
    | .object :: _, cs => do skipFrom fuel .value around (← skipName cs)
    | _, cs => skipFrom fuel .value around cs
  | _ + 1, .ended, [], cs => .ok cs
  | fuel + 1, .ended, container :: around, cs =>
    match container, skipBlanks cs with
    | .array, ',' :: rest => skipFrom fuel .value (.array :: around) rest
    | .object, ',' :: rest => do skipFrom fuel .value (.object :: around) (← skipName rest)
    | .array, ']' :: rest => skipFrom fuel .ended around rest
    | .object, '\x7d' :: rest => skipFrom fuel .ended around rest
    | _, rest => .error rest.length

/-- Passes over a value, which counts as null. -/
def skipValue : Reader Json := fun cs =>
  (skipFrom (3 * cs.length + 3) .value [] cs).map fun rest => (.null, rest)

end StoredRoutine.Json
