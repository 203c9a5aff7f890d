import StoredRoutine.Proofs.Script.Drafts
import StoredRoutine.Routine.Definition
import StoredRoutine.Script.Machine.Step

/-!
# `StoredRoutine.Proofs.Script.OneFunction`: sources that define one function

The body of a routine is put into a source that declares a variable, assigns a function to it and
returns it. The source is text, so what it reads as depends on the body: an `end` that the body has
too many closes the function, and what follows stands beside it. A body that does no such thing is
enclosed (`RoutineDefinition.Enclosed`).

What the source of an enclosed body is compiled to does not depend on the body, but for the code of
the function (`FunctionCode.code_definesOne`): the instructions put nil into a register, make the
function, copy it and return it. They are computed statement by statement. Only the statement in
the middle has an unknown part, of which `Drafting.function_gain` says all there is to say.

Such instructions work on registers, variables and functions alone. A function of them
(`FunctionCode.IsPlain`), and the text of a string, need no table, no coroutine and no service. A
run of these keeps the heap but for new variables and functions (`Heap.Grows`), and what it raises
is a message. A step either ends such a run or leaves a control of the same form
(`Machine.step_plain`); `Machine.advance_plain` is the same for many steps.
-/

set_option autoImplicit false

namespace StoredRoutine.Script

/-- Whether an instruction works on registers, variables and functions alone. -/
def Instruction.isPlain : Instruction → Bool
  | .load .. => true
  | .loadNils .. => true
  | .copy .. => true
  | .closure .. => true
  | .share _ => true
  | .result .. => true
  | .resultOne _ => true
  | _ => false

/-- A function has no other instructions. -/
def FunctionCode.IsPlain (f : FunctionCode) : Prop := ∀ i ∈ f.code, i.isPlain = true

/-! ### Heaps -/

/-- Nothing has happened to a heap but to its variables and functions. -/
def Heap.Grows (h h' : Heap) : Prop := ∃ cells closures, h' = { h with cells, closures }

theorem Heap.Grows.refl (h : Heap) : h.Grows h := ⟨_, _, rfl⟩

theorem Heap.Grows.trans {h h' h'' : Heap} (hgrows : h.Grows h') (hgrows' : h'.Grows h'') :
    h.Grows h'' := by
  obtain ⟨_, _, rfl⟩ := hgrows
  obtain ⟨_, _, rfl⟩ := hgrows'
  exact ⟨_, _, rfl⟩

theorem Heap.grows_write (h : Heap) (cell : CellId) (v : Value) : h.Grows (h.write cell v) :=
  ⟨_, h.closures, rfl⟩

/-! ### Controls -/

/-- What the machine raises on its own, or lets through: a text or a failure. -/
inductive Value.IsMessage : Value → Prop where
  | string (b : ByteArray) : IsMessage (.string b)
  | failure (f : Failure) : IsMessage (.failure f)

/-- What is next needs no table. -/
inductive Focus.Plain (h : Heap) : Focus → Prop where
  | run {a : Activation} (ha : a.call.code.IsPlain) : Plain h (.run a)
  | give (values : List Value) : Plain h (.give values)
  | function (position : Nat) {id : ClosureId} (args : List Value)
    (hid : ∀ f, h.closures[id.index]? = some f → f.code.IsPlain) :
    Plain h (.call position (.closure id) args)
  | text (position : Nat) (b : ByteArray) : Plain h (.call position (.builtin .toText) [.string b])
  | raise {error : Value} (he : error.IsMessage) : Plain h (.raise error)

/-- What is next needs no table, and nothing waits for it. -/
structure Control.Plain (h : Heap) (c : Control) : Prop where
  callers : c.callers = []
  thread : c.thread = none
  focus : c.focus.Plain h

/-- A run has finished, or has failed with a message. -/
inductive Ending.Plain : Ending → Prop where
  | finished (values : List Value) : Plain (.finished values)
  | failed {error : Value} (he : error.IsMessage) : Plain (.failed error)

/-- A step leads to what is as plain, or ends the run. -/
def Step.Plain (h : Heap) : Step → Prop
  | .next h' c => h.Grows h' ∧ c.Plain h'
  | .request .. => False
  | .ended e h' => h.Grows h' ∧ e.Plain

variable {h h' : Heap} {c : Control} {a : Activation}

theorem Control.Plain.withFocus (hc : c.Plain h) {f : Focus} (hf : f.Plain h') :
    (c.withFocus f).Plain h' := ⟨hc.callers, hc.thread, hf⟩

theorem Control.Plain.fault (hc : c.Plain h) (text : String) : (c.fault text).Plain h :=
  hc.withFocus (.raise (.string _))

theorem Step.Plain.after {s : Step} (hs : s.Plain h') (hgrows : h.Grows h') : s.Plain h := by
  cases s with
  | next h'' c => exact ⟨hgrows.trans hs.1, hs.2⟩
  | request => exact hs
  | ended e h'' => exact ⟨hgrows.trans hs.1, hs.2⟩

namespace Machine

/-! ### Instructions -/

theorem go_plain (hc : c.Plain h) (ha : a.call.code.IsPlain) (hgrows : h.Grows h') :
    (go h' c a).Plain h := ⟨hgrows, hc.withFocus (.run ha)⟩

theorem put_plain (hc : c.Plain h) (ha : a.call.code.IsPlain) (hgrows : h.Grows h') (p : Place)
    (v : Value) : (put h' c a p v).Plain h := by
  unfold put
  split
  · exact go_plain hc ha (hgrows.trans (h'.grows_write _ v))
  · exact go_plain hc ha hgrows

/-- Setting many registers does not change what is executed. -/
theorem setCount_call (a : Activation) (first count : Nat) (values : List Value) :
    (a.setCount first count values).call = a.call := by
  induction count generalizing a first values with
  | zero => rfl
  | succ count ih => exact ih _ _ _

theorem perform_plain (hc : c.Plain h) (ha : a.call.code.IsPlain) {i : Instruction}
    (hi : i.isPlain = true) : (perform h c a i).Plain h := by
  cases i with
  | load dest v => exact put_plain hc ha (.refl h) dest v.value
  | loadNils first count =>
    refine go_plain hc ?_ (.refl h)
    rw [setCount_call]
    exact ha
  | copy dest source => exact put_plain hc ha (.refl h) dest _
  | closure dest i => exact put_plain hc ha ⟨h.cells, _, rfl⟩ dest _
  | share r => exact go_plain hc ha ⟨_, h.closures, rfl⟩
  | result first count => exact ⟨.refl h, hc.withFocus (.give _)⟩
  | resultOne p => exact ⟨.refl h, hc.withFocus (.give _)⟩
  | _ => cases hi

/-- Behind the last instruction of a function there is one that is plain, too. -/
theorem isPlain_instructionAt (ha : a.call.code.IsPlain) (i : Nat) :
    (instructionAt a i).isPlain = true := by
  unfold instructionAt
  rw [Array.getD_eq_getD_getElem?]
  cases hi : a.call.code.code[i]? with
  -- behind the end stands a return
  | none => rfl
  | some x => exact ha x (Array.mem_of_getElem? hi)

/-! ### Steps -/

theorem call_plain (hc : c.Plain h) {position : Nat} {f : Value} {args : List Value}
    (hf : (Focus.call position f args).Plain h) : (call h c position f args).Plain h := by
  cases hf with
  | «function» position args hid =>
    show (callClosure h c position _ args).Plain h
    unfold callClosure
    split
    · exact ⟨.refl h, hc.fault _⟩
    · rename_i f hfound
      dsimp only
      -- there may be no room for the registers of the function
      split
      · exact ⟨.refl h, hc.fault _⟩
      · exact ⟨.refl h, hc.withFocus (.run (hid f hfound))⟩
  | text position b =>
    unfold call
    dsimp only
    split
    · exact ⟨.refl h, hc.fault _⟩
    · exact ⟨.refl h, hc.withFocus (.give _)⟩

theorem execute_plain (hc : c.Plain h) (ha : a.call.code.IsPlain) : (execute h c a).Plain h :=
  perform_plain (a := { a with next := a.next + 1 }) hc ha (isPlain_instructionAt ha _)

/-- Nothing waits for the values, so the run ends with them. -/
theorem give_plain (hc : c.Plain h) (values : List Value) : (give h c values).Plain h := by
  unfold give endStack
  rw [hc.callers, hc.thread]
  exact ⟨.refl h, .finished values⟩

/-- Nothing catches what is raised. -/
theorem raise_plain (hc : c.Plain h) {error : Value} (he : error.IsMessage) :
    (raise h c error).Plain h := by
  unfold raise
  rw [hc.callers, hc.thread]
  exact ⟨.refl h, .failed he⟩

/-- One case for each thing that can be next. -/
theorem step_plain (hc : c.Plain h) : (step h c).Plain h := by
  have hwaits : (c.withFocus (.give [])).Plain h := hc.withFocus (.give [])
  have hfocus := hc.focus
  unfold step
  dsimp only
  generalize c.focus = focus at hfocus ⊢
  cases hfocus with
  | run ha => exact execute_plain hwaits ha
  | give values => exact give_plain hwaits values
  | «function» position args hid => exact call_plain hwaits (.function position args hid)
  | text position b => exact call_plain hwaits (.text position b)
  | raise he => exact raise_plain hwaits he

/-- By induction on the number of steps. -/
theorem advance_plain (hc : c.Plain h) (fuel left : Nat) : (advance fuel left h c).2.Plain h := by
  induction fuel generalizing left h c with
  | zero => exact ⟨.refl h, hc⟩
  | succ fuel ih =>
    unfold advance
    dsimp only
    split
    · exact ⟨.refl h, hc⟩
    · have hstep := step_plain hc
      cases hs : step h c with
      | next h' c' =>
        rw [hs] at hstep
        exact (ih hstep.2 _).after hstep.1
      | request s args position h' c' =>
        rw [hs] at hstep
        exact hstep
      | ended e h' =>
        rw [hs] at hstep
        exact hstep

end Machine

end StoredRoutine.Script

namespace StoredRoutine.Script

/-- A block declares a variable, assigns a function to it, and returns it. -/
inductive Block.DefinesOne : Block → Prop where
  | mk (name : String) (line line' line'' : Nat) (params : List String) (variadic : Bool)
    (body : Block) :
    DefinesOne [.declare [(name, .plain)] [],
      .assign line [.name line' name] [.function params variadic body],
      .result [.name line'' name]]

/-- Whether a block does so. -/
def Block.definesOne : Block → Bool
  | [.declare [(name, .plain)] [], .assign _ [.name _ name'] [.function ..],
      .result [.name _ name'']] => name' == name && name'' == name
  | _ => false

theorem Block.definesOne_iff (b : Block) : b.definesOne = true ↔ b.DefinesOne := by
  constructor
  · intro h
    unfold definesOne at h
    split at h
    · obtain ⟨hassigned, hreturned⟩ := Bool.and_eq_true_iff.mp h
      cases eq_of_beq hassigned
      cases eq_of_beq hreturned
      exact .mk ..
    · cases h
  · rintro ⟨name⟩
    simp [definesOne]

instance (b : Block) : Decidable b.DefinesOne := decidable_of_iff _ b.definesOne_iff

namespace Drafting

/-! ### The function that the source is -/

section

variable (name : String) (names : List String) (shared : Bool) (outers : Array OuterVariable)
  (code : FunctionCode)

/-- The function before its first statement, if `names` are those that functions inside have. -/
def opened : Draft :=
  { variadic := true, sharedNames := names, blocks := [⟨0, false, false, [], []⟩],
    outers := #[⟨"_ENV", .plain, .outer 0⟩] }

/-- The function with a variable, which functions inside may share. -/
def declared : Draft :=
  { opened names with
    code := #[.loadNils 0 1] ++ if shared then #[.share 0] else #[]
    lines := #[0] ++ if shared then #[0] else #[]
    locals := [⟨name, .plain, ⟨0, shared⟩⟩]
    used := 1 }

/-- The function that has assigned a function inside to its variable. -/
def assigned : Draft :=
  { declared name names shared with
    code := (declared name names shared).code ++
      #[.closure ⟨1, false⟩ 0, .copy ⟨0, shared⟩ ⟨1, false⟩]
    lines := (declared name names shared).lines ++ #[0, 0]
    outers
    functions := #[code] }

/-- The function that has returned its variable. -/
def returned : Draft :=
  { assigned name names shared outers code with
    code := (assigned name names shared outers code).code ++ #[.resultOne ⟨0, shared⟩]
    lines := (assigned name names shared outers code).lines ++ #[0] }

end

variable {name : String} {names : List String} {shared : Bool} {outers : Array OuterVariable}
  {code : FunctionCode} {around : List Draft}

/-! ### Its statements -/

/-- The name of the first variable in scope stands for that variable. -/
theorem lookup_innermost {d : Draft} {kind : VariableKind} {place : Place}
    {further : List LocalVariable} (h : d.locals = ⟨name, kind, place⟩ :: further) :
    lookup name ⟨d, around⟩ = .ok (.variable ⟨name, kind, place⟩, ⟨d, around⟩) := by
  rw [run_lookup]
  unfold lookupIn
  simp only [h, List.find?, beq_self_eq_true]

theorem statement_declare (hshared : names.contains name = shared) :
    statement (.declare [(name, .plain)] []) ⟨opened names, around⟩ =
      .ok ((), ⟨declared name names shared, around⟩) := by
  -- the variable gets its value first, and its name after that
  let valued : Draft := { opened names with code := #[.loadNils 0 1], lines := #[0], used := 1 }
  have hdeclare : declare [(name, .plain)] ⟨valued, around⟩ =
      .ok ((), ⟨declared name names shared, around⟩) := by
    unfold declare
    rw [run_bind]
    show (do
      let shared := names.contains name
      change fun d =>
        { d with locals := { name, kind := .plain, place := ⟨0, shared⟩ } :: d.locals }
      if shared then
        let _ ← emit 0 (.share 0)
      declare [] : Drafting Unit) _ = _
    rw [hshared]
    cases shared <;> rfl
  unfold statement
  show (do
    declare [(name, .plain)]
    checkClosing [(name, .plain)] : Drafting Unit) ⟨valued, around⟩ = _
  rw [run_bind, hdeclare]
  cases shared <;> rfl

theorem statement_assign {line line' : Nat} {params : List String} {variadic : Bool} {body : Block}
    {d : Drafts}
    (h : statement (.assign line [.name line' name] [.function params variadic body])
      ⟨declared name names shared, around⟩ = .ok ((), d)) :
    ∃ outers code around', d = ⟨assigned name names shared outers code, around'⟩ ∧
      Gain around around' := by
  have htargets : assignTargets [] [.name line' name] ⟨declared name names shared, around⟩ =
      .ok ([.variable ⟨0, shared⟩], ⟨declared name names shared, around⟩) := by
    unfold assignTargets namedTarget
    rw [run_bind, run_bind, lookup_innermost rfl]
    rfl
  have hbody := inside_statements true body
  unfold statement expressions expression at h
  rw [run_bind, htargets] at h
  dsimp only at h
  rw [function_endFunction, run_bind, run_bind, run_bind] at h
  cases hfunction : function params variadic (Sharing.names body) (statements true body)
      ⟨declared name names shared, around⟩ with
  | error f =>
    rw [hfunction] at h
    cases h
  | ok r =>
    obtain ⟨i, current, around'⟩ := r
    -- The function is the first one below the chunk, and the chunk's own draft only gains its code.
    obtain ⟨hi, ⟨outers, code, hcurrent⟩, hgain⟩ := function_gain hfunction
    dsimp only at hi hcurrent
    rw [hfunction, hi, hcurrent] at h
    refine ⟨outers, code, around', ?_, hgain⟩
    cases shared <;> cases h <;> rfl

theorem statement_result (line : Nat) :
    statement (.result [.name line name]) ⟨assigned name names shared outers code, around⟩ =
      .ok ((), ⟨returned name names shared outers code, around⟩) := by
  unfold statement expressions expression named
  rw [run_bind, run_bind, run_bind, lookup_innermost rfl]
  cases shared <;> rfl

theorem statements_definesOne (hshared : names.contains name = shared) {line line' line'' : Nat}
    {params : List String} {variadic : Bool} {body : Block} {d : Drafts}
    (h : statements true [.declare [(name, .plain)] [],
      .assign line [.name line' name] [.function params variadic body],
      .result [.name line'' name]] ⟨opened names, around⟩ = .ok ((), d)) :
    ∃ outers code around', d = ⟨returned name names shared outers code, around'⟩ ∧
      Gain around around' := by
  -- after each statement the only register in use is that of the variable
  have hdeclared : releaseAll ⟨declared name names shared, around⟩ =
      .ok ((), ⟨declared name names shared, around⟩) := by
    cases shared <;> rfl
  unfold statements statements statements statements at h
  dsimp only [Statement.label?] at h
  rw [run_bind, statement_declare hshared] at h
  dsimp only at h
  rw [run_bind, hdeclared] at h
  dsimp only at h
  rw [run_bind] at h
  cases hassign : statement (.assign line [.name line' name] [.function params variadic body])
      ⟨declared name names shared, around⟩ with
  | error f =>
    rw [hassign] at h
    cases h
  | ok r =>
    obtain ⟨⟨⟩, d₁⟩ := r
    obtain ⟨outers, code, around', rfl, hgain⟩ := statement_assign hassign
    have hassigned : releaseAll ⟨assigned name names shared outers code, around'⟩ =
        .ok ((), ⟨assigned name names shared outers code, around'⟩) := by
      cases shared <;> rfl
    rw [hassign] at h
    dsimp only at h
    rw [run_bind, hassigned] at h
    dsimp only at h
    rw [run_bind, statement_result] at h
    refine ⟨outers, code, around', ?_, hgain⟩
    cases shared <;> cases h <;> rfl

end Drafting

/-! ### Its code -/

/-- The instructions of a block that defines one function. Only whether the function may share the
variable is left open. -/
theorem FunctionCode.code_definesOne {b : Block} (hb : b.DefinesOne) {f : FunctionCode}
    (h : FunctionCode.ofBody ["_ENV"] [] true b = .ok f) :
    ∃ shared, f.code = #[.loadNils 0 1] ++ (if shared then #[.share 0] else #[]) ++
      #[.closure ⟨1, false⟩ 0, .copy ⟨0, shared⟩ ⟨1, false⟩, .resultOne ⟨0, shared⟩,
        .result 1 (some 0)] := by
  obtain ⟨name, line, line', line'', params, variadic, body⟩ := hb
  let b : Block := [.declare [(name, .plain)] [],
    .assign line [.name line' name] [.function params variadic body], .result [.name line'' name]]
  unfold FunctionCode.ofBody at h
  dsimp only at h
  generalize hrun : StateT.run _ _ = run at h
  cases run with
  | error f => cases h
  | ok r =>
    obtain ⟨⟨⟩, d⟩ := r
    -- the statements are written once the function is open
    have hwritten : (Drafting.statements true b >>= fun _ => Drafting.endFunction >>= fun _ =>
        pure () : Drafting Unit) ⟨Drafting.opened (Sharing.names b), [{}]⟩ = .ok ((), d) := hrun
    rw [Drafting.run_bind] at hwritten
    cases hs : Drafting.statements true b ⟨Drafting.opened (Sharing.names b), [{}]⟩ with
    | error f =>
      rw [hs] at hwritten
      cases hwritten
    | ok r =>
      obtain ⟨⟨⟩, d⟩ := r
      obtain ⟨outers, code, around, rfl, hgain⟩ := Drafting.statements_definesOne rfl hs
      rw [hs] at hwritten
      generalize (Sharing.names b).contains name = shared at hwritten
      refine ⟨shared, ?_⟩
      -- around it there is what stands for the program, which has come by nothing that counts
      cases hgain with
      | cons houter hfurther =>
        obtain ⟨_, rfl⟩ := houter
        cases hfurther
        cases shared <;> cases hwritten <;> cases h <;> rfl

/-- All of them are plain. -/
theorem FunctionCode.isPlain_definesOne {b : Block} (hb : b.DefinesOne) {f : FunctionCode}
    (h : FunctionCode.ofBody ["_ENV"] [] true b = .ok f) : f.IsPlain := by
  obtain ⟨shared, hcode⟩ := FunctionCode.code_definesOne hb h
  have hall : f.code.all Instruction.isPlain = true := by
    rw [hcode]
    cases shared <;> simp [Instruction.isPlain]
  intro i hi
  exact Array.all_eq_true_iff_forall_mem.mp hall i hi

end StoredRoutine.Script

namespace StoredRoutine

/-- The body of a routine stays inside the function that it is put into: the source that it is
compiled from is no script, or defines one function. -/
def RoutineDefinition.Enclosed (d : RoutineDefinition) : Prop :=
  ∀ b, Script.Block.read d.chunk.toUTF8 = .ok b → b.DefinesOne

instance (d : RoutineDefinition) : Decidable d.Enclosed :=
  match h : Script.Block.read d.chunk.toUTF8 with
  | .error _ => .isTrue fun _ hb => by cases h.symm.trans hb
  | .ok b => decidable_of_iff b.DefinesOne
    ⟨fun hdefines _ hb => by cases h.symm.trans hb; exact hdefines, fun henclosed => henclosed b h⟩

end StoredRoutine
