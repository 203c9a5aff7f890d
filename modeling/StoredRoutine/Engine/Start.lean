import StoredRoutine.Engine.Compile
import StoredRoutine.Script.Library.Globals

/-!
# `StoredRoutine.Engine.Start`: a new engine

A new engine has the library, the services as globals, and two functions of its own: the text of a
report, and the function that every set-returning coroutine runs. With trusted scripts the library
is limited and the globals are read-only from then on. At last the modules of the host are
evaluated in their order, each first as an expression; the value of a module becomes the global of
its name.
-/

set_option autoImplicit false

namespace StoredRoutine

open Script (Announcer Block Builtin Expr FunctionCode Heap Statement TableId Value)

namespace Engine

/-! ### Functions of the engine -/

/-- The text of a report is its message: `return tostring(rawget(e, 'message'))`. -/
def reportTextBody : Block :=
  let message : Expr := .call 1 (.name 1 "rawget") [.name 1 "e", .string "message".toUTF8]
  [.result [.call 1 (.name 1 "tostring") [message]]]

/-- A set-returning coroutine calls its function, and ends with false and what was raised if it
fails: `local ok, err = pcall(f, ...) if not ok then return false, err end`, on the lines from the
fourth on. -/
def setBodyBlock : Block :=
  [.declare [("ok", .plain), ("err", .plain)] [.call 4 (.name 4 "pcall") [.name 4 "f", .varargs]],
    .branch (.unary 5 .not (.name 5 "ok")) [.result [.bool false, .name 6 "err"]] []]

/-- Makes a function of the engine. `captured` are variables that it has from outside beside the
globals. -/
def nativeClosure (h : Heap) (chunk : String) (params : List String) (variadic : Bool)
    (body : Block) (captured : List (String × Value)) : Value × Heap :=
  match FunctionCode.ofBody ("_ENV" :: captured.map (·.1)) params variadic body with
  | .ok code => h.newOutermost chunk.toList code (.table h.globals :: captured.map (·.2))
  | .error _ => (.nil, h)

/-! ### Globals -/

/-- The functions of the table `server`. -/
def serverFields : List (String × Value) :=
  [("execute", .service .execute), ("rows", .service .openRows), ("find", .service .findCursor),
    ("prepare", .service .prepare), ("subtransaction", .service (.protectedCall false))]

/-- The services that are globals of their own. -/
def globalServices : List (String × Value) :=
  [("print", .service (.announce .print)), ("info", .service (.announce .info)),
    ("notice", .service (.announce .notice)), ("log", .service (.announce .log)),
    ("warning", .service (.announce .warning)), ("setshared", .service .setShared),
    ("subtransaction", .service (.protectedCall true))]

/-- Adds the services to the globals. -/
def addServices (h : Heap) : Heap :=
  let h := globalServices.foldl (fun h f => h.setGlobal f.1 f.2) h
  let h := h.setGlobal "shared" (.table h.globals)
  let (server, h) := h.tableOf serverFields
  h.setGlobal "server" (.table server)

/-- Makes the globals read-only, except for those who go around the metatable. -/
def protectGlobals (h : Heap) : Heap :=
  let (guard, h) := h.tableOf [("__newindex", .service .denyGlobal), ("__metatable", .bool false)]
  h.modifyTable h.globals fun t => { t with metatable := some guard }

/-- An engine that has evaluated no modules yet. -/
def bare (options : Options) (host : Host) : Engine :=
  let h := Script.Library.start options.trusted
  let (reportText, h) := nativeClosure h "error_tostring" ["e"] false reportTextBody []
  let (reports, h) := h.tableOf [("__tostring", reportText)]
  let (setBody, h) :=
    nativeClosure h "srf_entry" ["f"] true setBodyBlock [("pcall", h.global "pcall")]
  let h := addServices h
  let heap := if options.trusted then protectGlobals h else h
  { options, host, heap, reports, setBody }

end Engine

namespace Serving

/-- Makes a function of the source of a module, as an expression if it is one. -/
def loadModule (m : InitModule) : Serving Value := do
  let name := "=" ++ m.name
  match ← attempt (load name ("return " ++ m.source)) with
  | .ok f => return f
  | .error _ => load name m.source

/-- The failure of a module. -/
def moduleFailure (m : InitModule) (f : Failure) : Failure :=
  .compile ("init module \"" ++ m.name ++ "\" failed: " ++ f.display)

/-- Evaluates a module. -/
def evaluateModule (m : InitModule) : Serving Unit := do
  match ← attempt (loadModule m >>= fun f => runUnprotected Engine.callFunction f []) with
  | .error f => throw (moduleFailure m f)
  | .ok results =>
    let v := results.headD .nil
    if !v.isNil then modify fun e => { e with heap := e.heap.setGlobal m.name v }

end Serving

namespace Engine

/-- Starts an engine on a host. What modules did to the host stays also when the engine does not
start. -/
def start (options : Options) (host : Host) : Outcome Engine × Host :=
  match options.validate with
  | .error f => (.error f, host)
  | .ok () =>
    match host.modules.forM Serving.evaluateModule (bare options host) with
    | (.ok (), e) => (.ok e, e.host)
    | (.error f, e) => (.error f, e.host)

end Engine

end StoredRoutine
