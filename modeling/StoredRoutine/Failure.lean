/-!
# `StoredRoutine.Failure`: what can go wrong, and how it is reported

Every failure that crosses the border between scripts and the database is a `Failure`. The
constructor is the class of the failure; it fixes the SQLSTATE unless a report brings its own. A
`Report` is the shape in which failures reach the database and scripts: a message with optional
detail, hint, context and code.
-/

set_option autoImplicit false

namespace StoredRoutine

/-- A structured error record. -/
structure Report where
  message : String
  detail : Option String := none
  hint : Option String := none
  context : Option String := none
  /-- The SQLSTATE, when one is known. -/
  code : Option String := none
  deriving Repr, DecidableEq, Hashable, Inhabited

/-- The message, followed by the detail in parentheses. -/
def Report.display (r : Report) : String :=
  match r.detail with
  | none => r.message
  | some d => r.message ++ " (detail: " ++ d ++ ")"

/-- A failure, by class. -/
inductive Failure where
  /-- A value cannot be converted to or from its declared type. -/
  | conversion (text : String)
  /-- A composed value would exceed the allocation ceiling. -/
  | size (text : String)
  /-- A row layout has no column of this name. -/
  | fieldNotFound (name : String)
  /-- The source of a routine does not compile. -/
  | compile (text : String)
  /-- A script raised an error. -/
  | runtime (report : Report)
  /-- The host database reported a failure. -/
  | host (report : Report)
  /-- A call protocol was violated. -/
  | protocol (text : String)
  /-- An argument is not acceptable. -/
  | invalidArgument (text : String)
  /-- The engine that raised this refuses all further work. -/
  | fatal (text : String)
  /-- A value of the wrong kind reached a function of the library. -/
  | internal (text : String)
  deriving Repr, DecidableEq, Hashable, Inhabited

namespace Failure

/-- Whether a protected call must let the failure through. -/
def isFatal : Failure → Bool
  | .fatal _ => true
  | _ => false

/-- The SQLSTATE of a failure. A report with a code of its own overrides its class. -/
def sqlstate : Failure → String
  | .conversion _ => "22000"
  | .size _ => "54000"
  | .fieldNotFound _ => "42703"
  | .compile _ => "42P13"
  | .runtime r => r.code.getD "22000"
  | .host r => r.code.getD "XX000"
  | .protocol _ => "0A000"
  | .invalidArgument _ => "22023"
  | .fatal _ => "XX000"
  | .internal _ => "XX000"

/-- The bare message of a failure. -/
def message : Failure → String
  | .fieldNotFound name => s!"field '{name}' not found"
  | .runtime r => r.message
  | .host r => r.message
  | .conversion text => text
  | .size text => text
  | .compile text => text
  | .protocol text => text
  | .invalidArgument text => text
  | .fatal text => text
  | .internal text => text

/-- The structured form of a failure, which always has a code. -/
def report (f : Failure) : Report :=
  match f with
  | .runtime r => { r with code := some f.sqlstate }
  | .host r => { r with code := some f.sqlstate }
  | _ => { message := f.message, code := some f.sqlstate }

/-- The failure on one line, its class in front. -/
def display : Failure → String
  | .conversion text => "Conversion error: " ++ text
  | .size text => "Size error: " ++ text
  | .fieldNotFound name => "Field not found: " ++ name
  | .compile text => "Compile error: " ++ text
  | .runtime r => "Runtime error: " ++ r.display
  | .host r => "Host fault: " ++ r.display
  | .protocol text => "Protocol error: " ++ text
  | .invalidArgument text => "Invalid argument: " ++ text
  | .fatal text => "Fatal error: " ++ text
  | .internal text => "Internal error: " ++ text

/-- A report always names an SQLSTATE, that of the failure. -/
theorem report_code (f : Failure) : f.report.code = some f.sqlstate := by
  cases f <;> rfl

/-- The report of a failure carries its message. -/
theorem report_message (f : Failure) : f.report.message = f.message := by
  cases f <;> rfl

end Failure

/-- A computation that answers a value or a failure. -/
abbrev Outcome (α : Type) : Type := Except Failure α

end StoredRoutine
