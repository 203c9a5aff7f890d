import StoredRoutine.Failure
import StoredRoutine.Json.Access
import StoredRoutine.Json.Skipping

/-!
# `StoredRoutine.Options`: the configuration of an engine

Options have defaults, can be read from a json document, and are validated: every limit has to be
usable. A document is an object whose missing fields take their defaults and whose unknown fields
are ignored, or an array of the fields in their order, the last of which may be missing.
-/

set_option autoImplicit false

namespace StoredRoutine

/-- The configuration of an engine. -/
structure Options where
  /-- Scripts run with a limited library and read-only globals. -/
  trusted : Bool := true
  /-- The ceiling in bytes for one allocation, which array sizes are checked against. -/
  maxAllocSize : Nat := 0x3fffffff
  /-- The most dimensions an array may have. -/
  maxArrayDims : Nat := 6
  /-- The deepest nesting of script tables that is read. -/
  maxTableDepth : Nat := 64
  /-- How many rows an iterator fetches at a time. -/
  fetchSize : Nat := 50
  /-- The most time one invocation may take, in nanoseconds. -/
  timeout : Option Nat := none
  /-- The name that messages give the code of a routine. -/
  chunkName : String := "pllua chunk"
  deriving Repr, DecidableEq, Inhabited

namespace Options

/-- The most dimensions the host supports. -/
def hostMaxArrayDims : Nat := 6

/-- Refuses options with a limit that cannot be used. -/
def validate (o : Options) : Outcome Unit :=
  if o.maxAllocSize = 0 then .error (.invalidArgument "max_alloc_size must be > 0")
  else if o.maxArrayDims = 0 ∨ hostMaxArrayDims < o.maxArrayDims then
    .error (.invalidArgument s!"max_array_dims must be between 1 and {hostMaxArrayDims}")
  else if o.maxTableDepth < o.maxArrayDims then
    .error (.invalidArgument "max_table_depth must be >= max_array_dims")
  else if o.fetchSize = 0 then .error (.invalidArgument "fetch_size must be > 0")
  else if o.chunkName = "" then .error (.invalidArgument "chunk_name must not be empty")
  else .ok ()

/-! ### Reading from a document -/

/-- A whole number below a bound. -/
def natField? (bound : Nat) : Json → Option Nat
  | .number (.integer n) => if 0 ≤ n ∧ n < bound then some n.toNat else none
  | _ => none

/-- A span of time, in nanoseconds, from its seconds and nanoseconds. The whole seconds have to fit
sixty-four bits after the carry. -/
def span? (secs nanos : Json) : Option Nat := do
  let s ← natField? (2 ^ 64) secs
  let n ← natField? (2 ^ 32) nanos
  if s + n / 1000000000 < 2 ^ 64 then some (s * 1000000000 + n) else none

/-- A span of time as an object with exactly the two fields, or as an array of the two. -/
def spanField? : Json → Option Nat
  | .array [secs, nanos] => span? secs nanos
  | .object [("secs", secs), ("nanos", nanos)] => span? secs nanos
  | .object [("nanos", nanos), ("secs", secs)] => span? secs nanos
  | _ => none

/-- The time limit, which may be null. -/
def timeoutField? : Json → Option (Option Nat)
  | .null => some none
  | j => (spanField? j).map some

/-- The names of the fields, in their order. -/
def fieldNames : List String :=
  ["trusted", "max_alloc_size", "max_array_dims", "max_table_depth", "fetch_size", "timeout",
    "chunk_name"]

/-- Sets the field of the given name; nothing when the value is of the wrong kind. An unknown name
leaves the options as they are. -/
def setField? (o : Options) (name : String) (j : Json) : Option Options :=
  if name = "trusted" then (Json.bool? j).map fun v => { o with trusted := v }
  else if name = "max_alloc_size" then
    (natField? (2 ^ 64) j).map fun v => { o with maxAllocSize := v }
  else if name = "max_array_dims" then
    (natField? (2 ^ 64) j).map fun v => { o with maxArrayDims := v }
  else if name = "max_table_depth" then
    (natField? (2 ^ 64) j).map fun v => { o with maxTableDepth := v }
  else if name = "fetch_size" then (natField? (2 ^ 64) j).map fun v => { o with fetchSize := v }
  else if name = "timeout" then (timeoutField? j).map fun v => { o with timeout := v }
  else if name = "chunk_name" then (Json.text? j).map fun v => { o with chunkName := v }
  else some o

/-- The options that a raw document describes. A known field may occur only once. -/
def ofDocument? : Json → Option Options
  | .object members =>
    let known := members.filter fun m => fieldNames.contains m.1
    if (known.map (·.1)).Nodup then
      members.foldlM (fun o m => o.setField? m.1 m.2) ({} : Options)
    else none
  | .array items =>
    if items.length ≤ fieldNames.length then
      (fieldNames.zip items).foldlM (fun o m => o.setField? m.1 m.2) ({} : Options)
    else none
  | _ => none

/-- A raw document. Of an object only the values of the known fields are read. -/
def document : Json.Reader Json := fun cs =>
  match Json.skipBlanks cs with
  | '\x7b' :: rest =>
    let field (name : String) : Json.Reader Json :=
      if fieldNames.contains name then Json.readRaw (Json.maxDepth - 1) else Json.skipValue
    Json.readObject field rest
  | cs => Json.readRaw Json.maxDepth cs

/-- Reads and validates options. The message for a document of the wrong shape points to its end. -/
def ofText (text : String) : Outcome Options :=
  match Json.readWhole? document text with
  | .error e => .error (.conversion e.message)
  | .ok j =>
    match ofDocument? j with
    | none =>
      let place := Json.ReadError.place text.toList 0
      .error (.conversion s!"unusable options at line {place.line} column {place.column}")
    | some o => o.validate.map fun _ => o

end Options

end StoredRoutine
