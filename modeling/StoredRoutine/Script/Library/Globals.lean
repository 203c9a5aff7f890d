import StoredRoutine.Script.Library.Basic
import StoredRoutine.Script.Library.Lists
import StoredRoutine.Script.Library.Scalars

/-!
# `StoredRoutine.Script.Library.Globals`: the library as scripts find it

The library is a list of names in groups; a group is a table of its own except for the first one,
whose functions are globals. A limited library lacks what reaches files, other programs and the
loading of code from them. Functions that need the machine (protected calls, coroutines, texts of
tables) are answered by the machine, all others here.
-/

set_option autoImplicit false

namespace StoredRoutine.Script.Library

/-- The functions of the library by group and name. -/
def functions : List (String × List (String × Builtin)) :=
  [("_G",
    [("assert", .assert), ("error", .error), ("getmetatable", .getMetatable), ("ipairs", .ipairs),
      ("next", .next), ("pairs", .pairs), ("pcall", .pcall), ("rawequal", .rawEqual),
      ("rawget", .rawGet), ("rawlen", .rawLen), ("rawset", .rawSet), ("select", .select),
      ("setmetatable", .setMetatable), ("tonumber", .toNumber), ("tostring", .toText),
      ("type", .typeOf)]),
   ("coroutine",
    [("create", .coCreate), ("isyieldable", .coIsYieldable), ("resume", .coResume),
      ("running", .coRunning), ("status", .coStatus), ("wrap", .coWrap), ("yield", .coYield)]),
   ("math",
    [("abs", .mathAbs), ("ceil", .mathCeil), ("floor", .mathFloor), ("fmod", .mathFmod),
      ("max", .mathMax), ("min", .mathMin), ("sqrt", .mathSqrt), ("tointeger", .mathToInteger),
      ("type", .mathType)]),
   ("string",
    [("byte", .stringByte), ("char", .stringChar), ("len", .stringLen), ("lower", .stringLower),
      ("rep", .stringRep), ("reverse", .stringReverse), ("sub", .stringSub),
      ("upper", .stringUpper)]),
   ("table",
    [("concat", .tableConcat), ("insert", .tableInsert), ("pack", .tablePack),
      ("remove", .tableRemove), ("unpack", .tableUnpack)])]

/-- The functions that are there without being provided, by group. -/
def absentFunctions : List (String × List String) :=
  [("_G", ["collectgarbage", "dofile", "load", "loadfile", "require", "warn", "xpcall"]),
   ("coroutine", ["close"]),
   ("io",
    ["close", "flush", "input", "lines", "open", "output", "popen", "read", "tmpfile", "type",
      "write"]),
   ("math",
    ["acos", "asin", "atan", "cos", "deg", "exp", "log", "modf", "rad", "random", "randomseed",
      "sin", "tan", "ult"]),
   ("os",
    ["clock", "date", "difftime", "execute", "exit", "getenv", "remove", "rename", "setlocale",
      "time", "tmpname"]),
   ("package", ["loadlib", "searchpath"]),
   ("string",
    ["dump", "find", "format", "gmatch", "gsub", "match", "pack", "packsize", "unpack"]),
   ("table", ["move", "sort"]),
   ("utf8", ["char", "codepoint", "codes", "len", "offset"])]

/-- The groups in their order. -/
def groups : List String :=
  ["_G", "coroutine", "io", "math", "os", "package", "string", "table", "utf8"]

/-- The groups that a limited library lacks. -/
def deniedGroups : List String := ["io", "package"]

/-- The globals that a limited library lacks. -/
def deniedGlobals : List String := ["dofile", "loadfile", "require"]

/-- The functions on the system that a limited library has. -/
def allowedSystem : List String := ["clock", "date", "difftime", "time"]

/-- Whether a limited library has a function. -/
def isAllowed (group name : String) : Bool :=
  if group = "_G" then !deniedGlobals.contains name
  else if group = "os" then allowedSystem.contains name
  else !deniedGroups.contains group

/-- The functions of a group. -/
def functionsOf (group : String) : List (String × Value) :=
  let provided := ((functions.lookup group).getD []).map fun f => (f.1, Value.builtin f.2)
  let absent := ((absentFunctions.lookup group).getD []).map fun name =>
    (name, Value.builtin (.absent (if group = "_G" then name else group ++ "." ++ name)))
  provided ++ absent

/-- The fields of a group that are no functions. -/
def constantsOf (group : String) : List (String × Value) :=
  if group = "_G" then [("_VERSION", .ofText "Lua 5.4")]
  else if group = "math" then
    [("huge", .number (.float (Float.ofBits 0x7ff0000000000000))),
      ("maxinteger", .ofInt Int64.maxValue), ("mininteger", .ofInt Int64.minValue),
      ("pi", .number (.float (Float.ofBits 0x400921fb54442d18)))]
  else if group = "utf8" then
    let behind : ByteArray := ⟨#[0xC2, 0x2D, 0xFD, 0x5D, 0x5B, 0x80, 0x2D, 0xBF, 0x5D, 0x2A]⟩
    [("charpattern", .string ("[\x00-\x7f".toUTF8 ++ behind))]
  else []

/-- The name of a function in messages. -/
def nameOf : Builtin → String
  | .absent name => name
  | .ipairsNext => "for iterator"
  | b =>
    ((functions.flatMap (·.2)).find? fun f => decide (f.2 = b)).elim "?" (·.1)

/-- Adds a group to the globals. -/
def addGroup (limited : Bool) (h : Heap) (group : String) : Heap :=
  let fields := ((functionsOf group).filter fun f => !limited || isAllowed group f.1)
    ++ constantsOf group
  if group = "_G" then fields.foldl (fun h f => h.setGlobal f.1 f.2) h
  else if limited && deniedGroups.contains group then h
  else
    let (id, h) := h.tableOf fields
    h.setGlobal group (.table id)

/-- The heap with nothing but the library. The first table is that of the globals, the second one
the metatable of strings; the first coroutine stands for the run outside of all coroutines. -/
def start (limited : Bool) : Heap :=
  let h : Heap := { threads := #[.active] }
  let (globals, h) := h.newTable {}
  let (strings, h) := h.newTable {}
  let h := { h with globals, strings }
  let h := groups.foldl (addGroup limited) h
  let h := h.setGlobal "_G" (.table globals)
  h.rawSet strings (.ofText "__index") (h.global "string")

/-- What a function answers that asks no metatable and calls nothing. -/
def apply (b : Builtin) (args : List Value) (h : Heap) : Answer (List Value × Heap) :=
  let one (v : Answer Value) : Answer (List Value × Heap) := v.map fun v => ([v], h)
  let many (vs : Answer (List Value)) : Answer (List Value × Heap) := vs.map fun vs => (vs, h)
  let numeric (f : Number → Number) : Answer (List Value × Heap) :=
    one ((number args 0).map fun n => .number (f n))
  let bytewise (f : ByteArray → ByteArray) : Answer (List Value × Heap) :=
    one ((string args 0).map fun b => .string (f b))
  match b with
  | .getMetatable => one ((any args 0).map (getMetatable h))
  | .ipairs => many ((any args 0).map fun v => [.builtin .ipairsNext, v, .ofInt 0])
  | .next => many (next h args)
  | .pairs => many ((any args 0).map fun v => [.builtin .next, v, .nil])
  | .rawEqual => one do
    let a ← any args 0
    let b ← any args 1
    return .bool (a.same b)
  | .rawGet => one do
    let id ← table args 0
    let key ← any args 1
    return h.rawGet id key
  | .rawLen => rawLen h args
  | .rawSet => rawSet h args
  | .select => many (select args)
  | .setMetatable => setMetatable h args
  | .toNumber => one (toNumber args)
  | .typeOf => one ((any args 0).map fun v => .ofText v.typeName)
  | .mathAbs => numeric absolute
  | .mathCeil => numeric (rounded Float.ceil)
  | .mathFloor => numeric (rounded Float.floor)
  | .mathFmod => one (fmod args)
  | .mathMax => one (extremum (fun a b => b.less a) args)
  | .mathMin => one (extremum Number.less args)
  | .mathSqrt => numeric fun n => Number.floatOp (fun x _ => x.sqrt) n n
  | .mathToInteger => one (toWhole args)
  | .mathType => one ((any args 0).map numberKind)
  | .stringByte => many (bytes args)
  | .stringChar => one (ofBytes args)
  | .stringLen => one ((string args 0).map fun b => .ofNat b.size)
  | .stringLower => bytewise (mapBytes Char.toLower)
  | .stringRep => one (repeatString args)
  | .stringReverse => bytewise fun b => ⟨b.data.reverse⟩
  | .stringSub => one (subString args)
  | .stringUpper => bytewise (mapBytes Char.toUpper)
  | .tableConcat => concat h args
  | .tableInsert => insert h args
  | .tablePack => .ok (pack h args)
  | .tableRemove => remove h args
  | .tableUnpack => unpack h args
  | b => .error (.message s!"'{nameOf b}' is not available")

end StoredRoutine.Script.Library
