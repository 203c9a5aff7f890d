import StoredRoutine.Proofs.Engine.Guarded

/-!
# `StoredRoutine.Proofs.Engine.ReadOnly`: which globals a script can set

The globals of trusted scripts are kept by the handler `__newindex` of their metatable. A table
asks this handler for keys that have no value. So an assignment to a global that is not there fails
with the advice to use `setshared`, and an assignment to one that is there goes through: what the
handler keeps are the names, not the values.

`Engine.GuardsNames` says this of one engine. It holds in every engine that comes about while a host
works with one of trusted scripts (`Engine.Reachable.globals_guarded`), between any two steps of any
script and inside of any service (`Engine.Becomes`). The reason is that no script gets hold of the
metatable, so the handler stays where it is, whatever becomes of the globals themselves.
-/

set_option autoImplicit false

namespace StoredRoutine

open Script (Activation AllOf Control Heap Holder Service Source Step TableId ThreadId Value)
open Script.Machine (advance go hasRoom maxHandlers perform step store storePlace)

/-- Scripts can have the value: it is not the metatable of the globals. -/
def Script.Heap.Shows (h : Heap) (v : Value) : Prop :=
  ∀ id, v = .table id → (h.table h.globals).metatable ≠ some id

/-- The heap after a step. -/
def Script.Step.heap : Step → Heap
  | .next h _ => h
  | .request _ _ _ h _ => h
  | .ended _ h => h

namespace Engine

/-- What an engine can become before its host gets it back. Scripts take steps and services answer
them, values are made for them, sources become functions, and coroutines are started and resumed.
All of this may happen in any order. No control starts with the metatable of the globals, for no
script gets hold of it. -/
inductive Becomes (e₀ : Engine) : Engine → Prop where
  | refl : Becomes e₀ e₀
  /-- Something happens that leaves scripts aside: to the host, a layout, a frame or an object. -/
  | aside {e e' : Engine} (h : Becomes e₀ e) (hsame : e.SameScripts e') : Becomes e₀ e'
  | step {e : Engine} {c : Control} (h : Becomes e₀ e) (hc : c.Holds e.heap.Shows) :
    Becomes e₀ { e with heap := (step e.heap c).heap }
  /-- A service answers. The functions that it calls are run on top of a control. -/
  | serve {e : Engine} {args : List Value} (h : Becomes e₀ e) (hargs : AllOf e.heap.Shows args)
    (fuel : Nat) (c : Control) (position : Nat) (s : Service) :
    Becomes e₀
      (Serving.serve (fun f args e => run fuel (nestedControl c position f args) e) s args e).2
  | value {e : Engine} (h : Becomes e₀ e) (v : ScriptValue) : Becomes e₀ (Serving.toValue v e).2
  | load {e : Engine} (h : Becomes e₀ e) (name source : String) :
    Becomes e₀ (Serving.load name source e).2
  | lookup {e : Engine} (h : Becomes e₀ e) (id : TypeId) :
    Becomes e₀ (Serving.lookup Serving.compile id e).2
  | publish {e : Engine} (h : Becomes e₀ e) (t : TriggerEvent) :
    Becomes e₀ (Serving.publishEvent t e).2
  | opened {e : Engine} (h : Becomes e₀ e) : Becomes e₀ e.opened.2
  | resumed {e : Engine} (h : Becomes e₀ e) (thread : ThreadId) :
    Becomes e₀ { e with heap := e.heap.setThread thread .active }

/-- What the service gets that refuses an assignment to a global. -/
def refusal (e : Engine) (name : ByteArray) (value : Value) : List Value :=
  [.table e.heap.globals, .string name, value]

/-- What comes of an assignment to a global, by whatever name the script has the table. -/
structure GuardsNames (e : Engine) : Prop where
  /-- A global that has a value takes the new one, and that is all. -/
  replaces {c : Control} {a : Activation} {holder : Holder} {key source : Source} {name : ByteArray}
    (hholder : a.holder e.heap holder = .table e.heap.globals)
    (hkey : a.operand e.heap key = .string name)
    (hvalue : (e.heap.rawGet e.heap.globals (.string name)).isNil = false) :
    perform e.heap c a (.setField holder key source) =
      go (e.heap.rawSet e.heap.globals (.string name) (a.operand e.heap source)) c a
  /-- For any other name nothing is set, and a service is called. -/
  spares {c : Control} {a : Activation} {holder : Holder} {key source : Source} {name : ByteArray}
    (hholder : a.holder e.heap holder = .table e.heap.globals)
    (hkey : a.operand e.heap key = .string name)
    (hnone : (e.heap.rawGet e.heap.globals (.string name)).isNil = true) :
    perform e.heap c a (.setField holder key source) =
      .next e.heap ((c.push (.script a)).nest a.top (.service .denyGlobal)
        (e.refusal name (a.operand e.heap source)))
  /-- Where there is room for a call, the next step asks for the service. -/
  asks {c : Control} {a : Activation} {name : ByteArray} {value : Value}
    (hlevel : c.outerLevel + c.level + 1 < Script.maxLevel)
    (hroom : a.top + 4 + Script.libraryRoom ≤ Script.maxStack) :
    step e.heap ((c.push (.script a)).nest a.top (.service .denyGlobal) (e.refusal name value)) =
      .request .denyGlobal (e.refusal name value) a.top e.heap
        { c.push (.script a) with level := c.level + 1, focus := .give [] }
  /-- The service fails with the advice to use `setshared`, and does nothing else. -/
  refuses (call : Caller) (name : ByteArray) (value : Value) :
    Serving.serve call .denyGlobal (e.refusal name value) e =
      (.error (Serving.globalsAreReadOnly (Text.display name)), e)

variable {e₀ e : Engine} {guard : TableId}

/-- The table that is hidden is the metatable of the globals. -/
theorem Hides.guarded (he : e.Hides (some guard)) : e.heap.GuardedBy guard :=
  he.heap.hidden guard fun hshown => hshown guard rfl rfl

theorem Hides.shown (he : e.Hides (some guard)) {v : Value} (hv : e.heap.Shows v) :
    v.Shown (some guard) := by
  rintro id heq rfl
  exact hv id rfl (he.guarded.guards.trans heq)

/-- Whatever an engine becomes, it hides its guard. -/
theorem Becomes.hides (h : e₀.Becomes e) (he : e₀.Hides (some guard)) : e.Hides (some guard) := by
  induction h with
  | refl => exact he
  | aside _ hsame ih => exact ih.ofSame hsame
  | @step e c _ hc ih =>
    have hstep := Script.Machine.step_holds (innate_shown (some guard)) ih.heap
      (hc.mono fun _ hv => ih.shown hv)
    refine ih.withHeap ?_
    generalize Script.Machine.step e.heap c = s at hstep ⊢
    -- the heap is part of every outcome of a step
    cases s with
    | next heap c' => exact hstep.1
    | request s args position heap c' => exact hstep.2.2.1
    | ended ending heap => exact hstep.2
  | serve _ hargs fuel c position s ih =>
    have hcall : Caller.Hides (some guard) fun f args e =>
        run fuel (nestedControl c position f args) e :=
      fun _ _ _ he hf hargs =>
        run_hides fuel he (holds_nestedControl (innate_shown _) c position hf hargs)
    exact (Serving.hides_serve hcall s (fun v hv => ih.shown (hargs v hv)) ih).1
  | value _ v ih => exact (Serving.hides_toValue _ v ih).1
  | load _ name source ih => exact (Serving.hides_load name source ih).1
  | lookup _ id ih => exact (Serving.hides_lookup id ih).1
  | publish _ t ih => exact (Serving.hides_publishEvent t ih).1
  | opened _ ih =>
    exact ih.withHeap (ih.heap.newThread (ih.functions _ List.mem_cons_self)) |>.ofSame
      ⟨rfl, rfl, rfl, rfl, rfl, rfl⟩
  | resumed _ thread ih => exact ih.withHeap (ih.heap.setThread thread (s := .active) trivial)

theorem Hides.shows (he : e.Hides (some guard)) {v : Value} (hv : v.Shown (some guard)) :
    e.heap.Shows v := by
  rintro id rfl hid
  exact hv id (he.guarded.guards.symm.trans hid) rfl

/-! ### Runs -/

theorem Becomes.advance (h : e₀.Becomes e) (he : e₀.Hides (some guard)) (steps due : Nat)
    {c : Control} (hc : c.Holds (Value.Shown (some guard))) :
    e₀.Becomes { e with heap := (advance steps due e.heap c).2.heap } := by
  induction steps generalizing e due c with
  | zero => exact h
  | succ steps ih =>
    have hhides := h.hides he
    have hstep := Script.Machine.step_holds (innate_shown (some guard)) hhides.heap hc
    have hnext := h.step (hc.mono fun _ hv => hhides.shows hv)
    unfold advance
    simp only
    split
    · exact h
    · split
      next h' c' heq =>
        rw [heq] at hstep hnext
        exact ih hnext _ hstep.2
      · exact hnext

/-- A run is nothing but steps of scripts and answers of services. -/
theorem Becomes.run (h : e₀.Becomes e) (he : e₀.Hides (some guard)) (fuel : Nat) {c : Control}
    (hc : c.Holds (Value.Shown (some guard))) : e₀.Becomes (run fuel c e).2 := by
  induction fuel generalizing e c with
  | zero => exact h
  | succ fuel ih =>
    have hturn := Script.Machine.advance_holds (innate_shown (some guard)) stepsAtOnce
      e.instructionsDue (h.hides he).heap hc
    have hheap := h.advance he stepsAtOnce e.instructionsDue hc
    unfold Engine.run
    simp only
    generalize Script.Machine.advance stepsAtOnce _ _ c = turn at hturn hheap ⊢
    obtain ⟨left, s⟩ := turn
    have hcounted : e₀.Becomes ({ e with heap := s.heap }.countTurn left) :=
      hheap.aside ⟨rfl, rfl, rfl, rfl, rfl, rfl⟩
    cases s with
    | next heap c' =>
      simp only
      split
      · have hlooked : e₀.Becomes (({ e with heap }.countTurn left).look c').2 :=
          hcounted.aside ⟨rfl, rfl, rfl, rfl, rfl, rfl⟩
        exact ih hlooked (holds_look (shown_failure _) hturn.2)
      · exact ih hcounted hturn.2
    | ended ending heap => exact hcounted
    | request s args position heap c' =>
      obtain ⟨-, hargs, -, hc'⟩ := hturn
      have hasked : e₀.Becomes ({ e with heap }.countTurn left) := hcounted
      have hhides := hasked.hides he
      -- the functions that the service calls run on top of the control that asks for it
      have hserved := hasked.serve (fun v hv => hhides.shows (hargs v hv)) fuel c' position s
      have hcall : Caller.Hides (some guard) fun f args e =>
          Engine.run fuel (nestedControl c' position f args) e :=
        fun _ _ _ he hf hargs =>
          run_hides fuel he (holds_nestedControl (innate_shown _) c' position hf hargs)
      have hanswer := (Serving.hides_serve hcall s hargs hhides).2
      simp only
      generalize Serving.serve _ s args _ = served at hserved hanswer ⊢
      obtain ⟨r, e'⟩ := served
      cases r with
      | ok values =>
        have hfocus : Script.Focus.Holds (Value.Shown (some guard)) (.give values) :=
          hanswer values rfl
        exact ih hserved (hc'.withFocus hfocus)
      | error f =>
        have hfocus : Script.Focus.Holds (Value.Shown (some guard)) (.raise (.failure f)) :=
          shown_failure f
        exact ih hserved (hc'.withFocus hfocus)

/-! ### Assignments -/

section Assignment

variable {h : Heap} {name : ByteArray} {value : Value}

/-- A global with a value is set where it is. -/
theorem storePlace_of_value (hg : h.GuardedBy guard)
    (hvalue : (h.rawGet h.globals (.string name)).isNil = false) :
    storePlace h (.string name) value maxHandlers (.table h.globals) = .entry h.globals := by
  unfold maxHandlers storePlace
  simp only [hg.guards, hvalue, Option.isNone_some, Bool.false_eq_true, if_false, Bool.not_false,
    if_true]

/-- For any other name the handler is called. -/
theorem storePlace_of_none (hg : h.GuardedBy guard)
    (hnone : (h.rawGet h.globals (.string name)).isNil = true) :
    storePlace h (.string name) value maxHandlers (.table h.globals) =
      .asked (.handler (.service .denyGlobal) [.table h.globals, .string name, value]) := by
  have hhandler : h.handler (.table h.globals) "__newindex" = .service .denyGlobal :=
    (Heap.handler_of_metatable_eq_some hg.guards _).trans hg.refuses
  unfold maxHandlers storePlace
  simp only [hg.guards, hnone, hhandler, Option.isNone_some, Bool.false_eq_true, if_false,
    Bool.not_true]
  rfl

end Assignment

/-- The guard keeps the names of the globals. -/
theorem Hides.guardsNames (he : e.Hides (some guard)) : e.GuardsNames where
  replaces hholder hkey hvalue := by
    unfold perform store
    simp only [hholder, hkey, storePlace_of_value he.guarded hvalue]
    rfl
  spares hholder hkey hnone := by
    unfold perform store
    simp only [hholder, hkey, storePlace_of_none he.guarded hnone]
    rfl
  asks {c a name value} hlevel hroom := by
    have hnest : ¬ Script.maxLevel ≤ c.outerLevel + c.level + 1 := Nat.not_le_of_lt hlevel
    have hfits : hasRoom a.top (e.refusal name value) = true := decide_eq_true hroom
    have hcall : (c.push (.script a)).nest a.top (.service .denyGlobal) (e.refusal name value) =
        { c.push (.script a) with
          level := c.level + 1
          focus := .call a.top (.service .denyGlobal) (e.refusal name value) } := if_neg hnest
    rw [hcall]
    unfold step Script.Machine.call
    simp only [hfits, Bool.not_true, Bool.false_eq_true, if_false]
    rfl
  refuses call name value := rfl

/-- The globals of trusted scripts are kept in whatever an engine becomes that a host can have. -/
theorem Reachable.globals_guarded (he : e₀.Reachable) (htrusted : e₀.options.trusted = true)
    (h : e₀.Becomes e) : e.GuardsNames := by
  obtain ⟨guard, hhides⟩ := he.hides
  cases guard with
  | none => cases htrusted.symm.trans hhides.trusted
  | some guard => exact (h.hides hhides).guardsNames

/-- A new engine, once a script has shared a value. -/
def sharing : Engine :=
  (Serving.serve (fun f args e => run 0 (nestedControl { focus := .give [] } 0 f args) e) .setShared
    [.ofText "answer", .ofNat 42] (bare {} Host.new)).2

theorem globals_guarded_sharing : sharing.GuardsNames := by
  have hstart : start {} Host.new = (.ok (bare {} Host.new), Host.new) := rfl
  have hnew : (bare {} Host.new).Reachable := .start ⟨rfl, rfl⟩ hstart
  have hargs : AllOf (bare {} Host.new).heap.Shows [.ofText "answer", .ofNat 42] := by
    intro v hv id heq
    rw [heq] at hv
    simp [Value.ofText, Value.ofNat] at hv
  exact hnew.globals_guarded rfl (.serve .refl hargs 0 _ 0 .setShared)

end Engine

end StoredRoutine
