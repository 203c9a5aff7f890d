import StoredRoutine.Engine.Run
import StoredRoutine.Routine.Definition
import StoredRoutine.Script.Code.OfBlock
import StoredRoutine.Text.Bytes

/-!
# `StoredRoutine.Engine.Compile`: the compiled form of a routine

A source becomes a function that takes any arguments and has the globals in scope. Its name shows in
messages and must not hold a NUL, which is noticed before the source is read. A name that starts
with an equals sign is shown as it is, one that starts with an at sign is a file name of which the
end is shown, and any other is quoted up to the end of its first line. What is shown fits in sixty
bytes with a mark for the end.

A routine is looked up in the catalog for each use. If the cache has it with the stamp that the
catalog says, that is it. Otherwise the types of the definition are checked and the routine is
compiled, and only if all of this goes well does the cache change. `lookup` takes the compiler as
an argument, since what is said of the cache holds whatever it is.
-/

set_option autoImplicit false

namespace StoredRoutine.Script

/-- The number of bytes for a shown name, with one for a mark at the end. -/
def ChunkName.room : Nat := 60

/-- The bytes of a quoted name that can be shown beside the brackets, the dots and the mark. -/
def ChunkName.quotedRoom : Nat := ChunkName.room - "[string \"...\"]".length - 1

/-- The name of a source as messages show it, in bytes. -/
def ChunkName.display (name : ByteArray) : List Char :=
  let cs := Text.byteChars name
  match cs with
  | '=' :: rest => rest.take (ChunkName.room - 1)
  | '@' :: rest =>
    if cs.length ≤ ChunkName.room then rest
    else "...".toList ++ rest.drop (rest.length - (ChunkName.room - 4))
  | _ =>
    let line := cs.takeWhile (· ≠ '\n')
    let shown :=
      if cs.length < ChunkName.quotedRoom && line.length = cs.length then cs
      else line.take ChunkName.quotedRoom ++ "...".toList
    "[string \"".toList ++ shown ++ "\"]".toList

end StoredRoutine.Script

namespace StoredRoutine.Serving

open Script (Value)

/-! ### Sources as functions -/

/-- The failure for a name with a NUL, by the place of the NUL in bytes. -/
def nulInName (place : Nat) : Failure :=
  .runtime { message := s!"invalid name: nul byte found in provided data at position: {place}" }

/-- The failure for a source that cannot be read. -/
def syntaxFailure (chunk : List Char) (f : Script.SyntaxFault) : Failure :=
  .compile (Text.display (Text.bytesOfChars chunk) ++ s!":{f.line}: " ++ f.text)

/-- Makes a function of a source. -/
def load (name source : String) : Serving Value := do
  let bytes := name.toUTF8
  match bytes.data.findIdx? (· == 0) with
  | some place => throw (nulInName place)
  | none =>
    let chunk := Script.ChunkName.display bytes
    match Script.FunctionCode.ofSource source.toUTF8 with
    | .error f => throw (syntaxFailure chunk f)
    | .ok code =>
      modifyGet fun e =>
        let (f, heap) := e.heap.newMain chunk code
        (f, { e with heap })

/-! ### Routines -/

/-- What goes wrong in compiling counts as a failure of compiling if a script would see it as an
error of its own. -/
def compileFailure : Failure → Failure
  | .runtime r => .compile r.message
  | f => f

/-- Compiles a routine: its source is run once and has to return a function. -/
def compile (d : RoutineDefinition) : Serving Value := do
  let name := (← get).options.chunkName
  match ← attempt (load name d.chunk >>= fun f => runUnprotected Engine.callFunction f []) with
  | .error f => throw (compileFailure f)
  | .ok results =>
    match results with
    | f :: _ => if f.isFunction then return f else throw mismatch
    | [] => throw mismatch

/-- Refuses a definition with types that its arguments or its result cannot have. -/
def checkDefinition (d : RoutineDefinition) : Serving Unit := do
  d.argTypes.forM fun type => do
    let t ← converting fun b => Resolving.descriptor b.catalog type
    ofOutcome t.checkArgument
  let result ← converting fun b => Resolving.descriptor b.catalog d.resultType
  ofOutcome result.checkResult
  if d.resultType = TypeId.trigger ∧ !d.argTypes.isEmpty then
    throw (.compile "trigger functions cannot have declared arguments")

/-- The failure for a routine that the catalog does not have. -/
def unknownRoutine (id : TypeId) : Failure :=
  .host { message := s!"cache lookup failed for function {id}" }

/-- The compiled form of a routine, from the cache if it is there and current. -/
def lookup (compile : RoutineDefinition → Serving Value) (id : TypeId) :
    Serving CompiledRoutine := do
  let e ← get
  match e.host.lookupRoutine id with
  | none => throw (unknownRoutine id)
  | some d =>
    match e.routines.current? id d.stamp with
    | some r => return r
    | none =>
      checkDefinition d
      let r := CompiledRoutine.ofDefinition d (← compile d)
      modify fun e => { e with routines := e.routines.enter id r }
      return r

end StoredRoutine.Serving
