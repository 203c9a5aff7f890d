import StoredRoutine.Script.Machine.Step

/-!
# `StoredRoutine.Proofs.Script.Coasting`: steps that leave the heap alone

Many steps work on registers and callers alone: to copy a variable, to call a function and to get
its values, to raise and to catch. The heap is the same after them (`Machine.step_isIdle`). So it is
after a global is read, and if it is known what the globals are, nobody has to look into their table
to know the next control (`Machine.step_known`).

The machine coasts as long as there are only such steps, and many steps at once lead to where they
lead from there (`Machine.advance_coast`).
-/

set_option autoImplicit false

namespace StoredRoutine.Script

/-- The instruction is one that works on registers and callers alone. -/
def Instruction.isIdle : Instruction → Bool
  | .copy dest _ => !dest.shared
  | .getOuter dest _ => !dest.shared
  | .call .. => true
  | _ => false

/-- The next step works on registers and callers alone. -/
def Control.isIdle (c : Control) : Bool :=
  match c.focus with
  | .run a => (Machine.instructionAt a a.next).isIdle
  | .give _ =>
    match c.callers with
    | [] => c.thread.isNone
    | .script a :: _ =>
      match Machine.instructionAt a (a.next - 1) with
      | .call .. => true
      | _ => false
    | .native .guarded _ _ :: _ => true
    | _ => false
  | .call _ (.closure _) _ => true
  | .call _ (.builtin .pcall) _ => true
  | .call _ (.builtin .error) _ => true
  | .raise _ => c.thread.isNone
  | _ => false

/-- The control after a step that puts a global into a register, the globals being known. -/
def Control.afterGlobal? (known : List (String × Value)) (h : Heap) (c : Control) :
    Option Control :=
  match c.focus with
  | .run a =>
    match Machine.instructionAt a a.next with
    | .getField dest (.outer i) (.constant (.string name)) =>
      match h.read (a.outer i), known.find? fun f => decide (f.1.toUTF8 = name) with
      | .table id, some f =>
        if id = h.globals ∧ dest.shared = false ∧ f.2.isNil = false then
          some (c.withFocus (.run ({ a with next := a.next + 1 }.setRegister dest.register f.2)))
        else none
      | _, _ => none
    | _ => none
  | _ => none

/-- The heap is as it was after a step with which a run goes on or ends. -/
def Step.Leaves (h : Heap) : Step → Prop
  | .next h' _ => h' = h
  | .request .. => True
  | .ended _ h' => h' = h

namespace Machine

variable {h h' : Heap} {c c' : Control} {known : List (String × Value)}

theorem put_register (h : Heap) (c : Control) (a : Activation) {p : Place}
    (hp : p.shared = false) (v : Value) : put h c a p v = go h c (a.setRegister p.register v) := by
  unfold put
  rw [hp]
  rfl

/-! ### Idle steps -/

theorem perform_leaves (h : Heap) (c : Control) (a : Activation) {i : Instruction}
    (hi : i.isIdle = true) : (perform h c a i).Leaves h := by
  cases i with
  | copy dest source =>
    have hdest : dest.shared = false := by simpa [Instruction.isIdle] using hi
    unfold perform
    dsimp only
    rw [put_register _ _ _ hdest]
    rfl
  | getOuter dest i =>
    have hdest : dest.shared = false := by simpa [Instruction.isIdle] using hi
    unfold perform
    dsimp only
    rw [put_register _ _ _ hdest]
    rfl
  | call first args results => rfl
  | _ => cases hi

/-- The values of a call go to registers. -/
theorem deliver_leaves (h : Heap) (c : Control) {a : Activation} (values : List Value)
    {first : Nat} {args results : Option Nat}
    (hi : instructionAt a (a.next - 1) = .call first args results) :
    (deliver h c a values).Leaves h := by
  unfold deliver
  rw [hi]
  cases results <;> rfl

theorem libraryFault_leaves (h : Heap) (c : Control) (b : Builtin) (f : Library.Fault) :
    (libraryFault h c b f).Leaves h := by
  cases f <;> rfl

theorem callClosure_leaves (h : Heap) (c : Control) (position : Nat) (id : ClosureId)
    (args : List Value) : (callClosure h c position id args).Leaves h := by
  unfold callClosure
  split
  · rfl
  · dsimp only
    split <;> rfl

theorem pcall_leaves (h : Heap) (c : Control) (position : Nat) (args : List Value) :
    (call h c position (.builtin .pcall) args).Leaves h := by
  unfold call
  dsimp only
  split
  · rfl
  · unfold callBuiltin
    cases args with
    | nil => exact libraryFault_leaves h c .pcall _
    | cons f rest => rfl

theorem error_leaves (h : Heap) (c : Control) (position : Nat) (args : List Value) :
    (call h c position (.builtin .error) args).Leaves h := by
  unfold call
  dsimp only
  split
  · rfl
  · unfold callBuiltin
    dsimp only
    split
    · rfl
    · exact libraryFault_leaves h c .error _

theorem raise_leaves (h : Heap) {c : Control} (hc : c.thread = none) (error : Value) :
    (raise h c error).Leaves h := by
  unfold raise
  split
  · rfl
  · rw [hc]
    rfl

/-- A step that works on registers and callers alone leaves the heap as it is. -/
theorem step_isIdle (hc : c.isIdle = true) : (step h c).Leaves h := by
  unfold Control.isIdle at hc
  unfold step
  dsimp only
  split at hc
  next a hfocus =>
    rw [hfocus]
    exact perform_leaves h _ _ hc
  next values hfocus =>
    rw [hfocus]
    show (give h (c.withFocus (.give [])) values).Leaves h
    unfold give
    -- Values given to nobody end the stack, and only a coroutine's stack touches the heap then.
    split at hc
    next hcallers =>
      rw [show (c.withFocus (.give [])).callers = _ from hcallers]
      unfold endStack
      rw [show (c.withFocus (.give [])).thread = none from Option.isNone_iff_eq_none.mp hc]
      rfl
    next a rest hcallers =>
      rw [show (c.withFocus (.give [])).callers = _ from hcallers]
      split at hc
      next hi =>
        exact deliver_leaves h _ values hi
      · cases hc
    next position level rest hcallers =>
      rw [show (c.withFocus (.give [])).callers = _ from hcallers]
      rfl
    · cases hc
  next position id args hfocus =>
    rw [hfocus]
    exact callClosure_leaves h _ position id args
  next position args hfocus =>
    rw [hfocus]
    exact pcall_leaves h _ position args
  next position args hfocus =>
    rw [hfocus]
    exact error_leaves h _ position args
  next error hfocus =>
    rw [hfocus]
    exact raise_leaves h (Option.isNone_iff_eq_none.mp hc) error
  · cases hc

/-- Reading a global that is not nil. -/
theorem read_global {name : String} (hname : (h.global name).isNil = false) :
    read h (.table h.globals) (.ofText name) = .value (h.global name) := by
  show index h (1999 + 1) _ _ = _
  unfold index
  show (if !(h.global name).isNil then Asked.value (h.global name) else _) = _
  rw [hname]
  rfl

/-- A global that is known needs not be looked up. -/
theorem step_known (hknown : ∀ f ∈ known, h.global f.1 = f.2)
    (hc : c.afterGlobal? known h = some c') : step h c = .next h c' := by
  unfold Control.afterGlobal? at hc
  split at hc
  next a hfocus =>
    split at hc
    next dest i name hi =>
      split at hc
      next id f hid hfound =>
        split at hc
        next hplace =>
          obtain ⟨rfl, hdest, hvalue⟩ := hplace
          cases hc
          -- The instruction reads the field of the globals that carries the known name.
          have hmatches := List.find?_some hfound
          obtain rfl : f.1.toUTF8 = name := of_decide_eq_true hmatches
          have hglobal := hknown f (List.mem_of_find?_eq_some hfound)
          unfold step
          rw [hfocus]
          show execute h (c.withFocus (.give [])) a = _
          unfold execute
          rw [hi]
          show receive (noticed h (h.read (a.outer i)) _) _ _ dest
            (read h (h.read (a.outer i)) _) = _
          rw [hid]
          show receive h _ _ dest (read h (.table h.globals) (.ofText f.1)) = _
          rw [read_global (hglobal ▸ hvalue), hglobal]
          exact put_register h _ _ hdest f.2
        · cases hc
      · cases hc
    · cases hc
  · cases hc

/-! ### Coasting -/

/-- The control after a step that leaves the heap alone for sure. -/
def idle? (known : List (String × Value)) (h : Heap) (c : Control) : Option Control :=
  match c.afterGlobal? known h with
  | some c' => some c'
  | none =>
    if c.isIdle then
      match step h c with
      | .next _ c' => some c'
      | _ => none
    else none

theorem step_idle? (hknown : ∀ f ∈ known, h.global f.1 = f.2) (hc : idle? known h c = some c') :
    step h c = .next h c' := by
  unfold idle? at hc
  split at hc
  next c'' hglobal =>
    cases hc
    exact step_known hknown hglobal
  · split at hc
    next hidle =>
      split at hc
      next h' c'' hstep =>
        cases hc
        have hsame := step_isIdle hidle (h := h)
        rw [hstep] at hsame ⊢
        rw [hsame]
      · cases hc
    · cases hc

/-- Takes steps that leave the heap alone for sure, so many at most. Answers how many there are
left, how many instructions there are left to count, and the control. -/
def coast (known : List (String × Value)) (h : Heap) : Nat → Nat → Control → Nat × Nat × Control
  | 0, left, c => (0, left, c)
  | fuel + 1, left, c =>
    if left ≤ ticks c then (fuel + 1, left, c)
    else
      match idle? known h c with
      | some c' => coast known h fuel (left - ticks c) c'
      | none => (fuel + 1, left, c)

/-- Many steps lead to where they lead from where the machine has coasted to. -/
theorem advance_coast (hknown : ∀ f ∈ known, h.global f.1 = f.2) (fuel left : Nat) (c : Control) :
    advance fuel left h c = advance (coast known h fuel left c).1 (coast known h fuel left c).2.1 h
      (coast known h fuel left c).2.2 := by
  induction fuel generalizing left c with
  | zero => rfl
  | succ fuel ih =>
    unfold coast
    split
    · rfl
    next hdue =>
      split
      next c' hidle =>
        rw [← ih, advance]
        simp only [hdue, if_false, step_idle? hknown hidle]
      · rfl

/-- Whether the machine coasts to the end of the run, in so many steps. -/
def settles (h : Heap) (fuel left : Nat) (c : Control) : Bool :=
  match coast [] h fuel left c with
  | (0, _, _) => false
  | (_ + 1, left, c) => decide (ticks c < left) && c.isIdle &&
    match step h c with
    | .ended .. => true
    | _ => false

/-- The run ends with the heap as it is. -/
theorem advance_settles {fuel left : Nat} (hc : settles h fuel left c = true) :
    ∃ left' ending, advance fuel left h c = (left', .ended ending h) := by
  have hcoast := advance_coast (h := h) (fun f (hf : f ∈ []) => absurd hf List.not_mem_nil)
    fuel left c
  unfold settles at hc
  generalize coast [] h fuel left c = reached at hcoast hc
  obtain ⟨fuel', left', c'⟩ := reached
  cases fuel' with
  | zero => cases hc
  | succ fuel' =>
    simp only [Bool.and_eq_true, decide_eq_true_eq] at hc
    obtain ⟨⟨hdue, hidle⟩, hends⟩ := hc
    have hsame := step_isIdle hidle (h := h)
    split at hends
    next ending h' hstep =>
      rw [hstep] at hsame
      obtain rfl : h' = h := hsame
      refine ⟨left' - ticks c', ending, hcoast.trans ?_⟩
      rw [advance]
      simp only [Nat.not_le.mpr hdue, if_false, hstep]
    · cases hends

end Machine

end StoredRoutine.Script
