import StoredRoutine.Proofs.Engine.Cursors

/-!
# `StoredRoutine.Proofs.Engine.Protected`: protected calls keep the invariant

A protected call starts a frame and a savepoint (`Engine.begun`). What runs inside follows the
engine that has both, so the frame is the current one when the function is done, and the savepoint
is the innermost one unless the engine is poisoned. The frame can always be ended. The release of
the savepoint, or the rollback to it, goes well in an engine that is not poisoned, unless the host
was told to fail.

The functions that a service calls are run by a `Caller`, of which nothing is known here but that
it keeps the invariant (`Caller.Keeps`). `StoredRoutine.Proofs.Engine.Run` shows that it does.
-/

set_option autoImplicit false

namespace StoredRoutine

open Outcome (Catchable)
open Script (AllOf Announcer Ending Value)

/-- What the end of a run that starts in `e` says of it. -/
def Engine.Ran (e : Engine) (stack : List FrameId) (done : Ending × Engine) : Prop :=
  done.2.Sound stack ∧ e.Follows done.2 ∧ done.1.Holds done.2.Admits

/-- A caller keeps the invariant, whatever function it runs. -/
def Caller.Keeps (call : Caller) : Prop :=
  ∀ (stack : List FrameId) (e : Engine) (f : Value) (args : List Value), e.Sound stack →
    e.Admits f → AllOf e.Admits args → e.Ran stack (call f args e)

namespace Engine

variable {e e' : Engine} {stack : List FrameId}

/-- A value stands for a fatal failure only if it is one. -/
theorem eq_failure_of_isFatal {h : Script.Heap} {v : Value} (hf : (failureOf h v).isFatal = true) :
    v = .failure (failureOf h v) := by
  cases v <;> first | rfl | cases hf

/-- The engine in which the function of a protected call starts: in a frame of its own, under a
savepoint. -/
def begun (e : Engine) : Engine := { e with arena := e.arena.pushFrame.2, host := e.host.begun }

theorem Sound.begun (h : e.Sound stack) : e.begun.Sound (e.arena.pushFrame.1 :: stack) :=
  ⟨h.arena.pushFrame, h.shared, h.heap, h.functions, h.host, h.registered⟩

theorem popFrame_eq {frame : FrameId} {exit : FrameExit} {arena : Arena}
    (hpop : e.arena.popFrame frame exit = .ok arena) :
    e.popFrame frame exit = (.ok (), { e with arena }) := by
  unfold popFrame
  rw [hpop]

/-- The frame of a protected call can be ended, in either way. -/
theorem Sound.endFrame (h : e.Sound stack) (hin : e.begun.Follows e')
    (h' : e'.Sound (e.arena.pushFrame.1 :: stack)) (exit : FrameExit) :
    ∃ arena, (∀ host poisoned, { e' with host, poisoned }.popFrame e.arena.pushFrame.1 exit =
        (.ok (), { e' with arena, host, poisoned })) ∧
      arena.Sound stack e'.held ∧ e.arena.Follows arena ∧
      (exit = .aborted → ∀ id, arena.layout? id = e.arena.layout? id) := by
  obtain ⟨arena, hpop, hsound, hfollows, hlayout⟩ := h.arena.follows_frame hin.arena h'.arena exit
  exact ⟨arena, fun host poisoned => popFrame_eq (e := { e' with host, poisoned }) hpop, hsound,
    hfollows, hlayout⟩

/-- Where the mark of the host stays, no rollback has failed. -/
theorem not_faulted {host : Host} (hmark : host.failRollback = e'.host.failRollback)
    (hp : e'.poisoned = false) : e'.poisoned = true ↔ e'.host.RollbackFailed host := by
  simp [hp, Host.not_rollbackFailed hmark]

/-- The engine once the frame and the savepoint of a protected call have ended. -/
theorem Follows.ended (hin : e.begun.Follows e') {arena : Arena} {host : Host} {poisoned : Bool}
    (ha : e.arena.Follows arena) (hh : e.host.Follows host)
    (hp : e'.poisoned = true → poisoned = true)
    (hbalanced : poisoned = false → host.savepoints = e.host.savepoints)
    (hmark : e'.host.failRollback = false → host.failRollback = false)
    (hfaulted : e'.poisoned = false → (poisoned = true ↔ e'.host.RollbackFailed host)) :
    e.Follows { e' with arena, host, poisoned } where
  arena := ha
  host := hh
  poisoned h := hp (hin.poisoned h)
  balanced := hbalanced
  faulted h := by
    have hwhole : e.host.RollbackFailed host ↔
        e.begun.host.RollbackFailed e'.host ∨ e'.host.RollbackFailed host :=
      Host.rollbackFailed_trans hin.host.failRollback hmark
    show poisoned = true ↔ e.host.RollbackFailed host
    rw [hwhole, ← hin.faulted h]
    -- either the engine was poisoned inside, or it is by the end of the savepoint
    cases hinside : e'.poisoned with
    | false => simp [hfaulted hinside]
    | true => simp [hp hinside]
  executions := hin.executions
  started := hin.started

end Engine

namespace Serving

variable {e e' : Engine} {stack : List FrameId} {call : Caller} {f : Value} {args : List Value}

/-! ### Calls of functions -/

/-- What a function returns or raises is admitted. -/
def Returned (e : Engine) : Except Value (List Value) → Prop
  | .ok results => AllOf e.Admits results
  | .error raised => e.Admits raised

/-- The results of a function are admitted. -/
abbrev Results (e : Engine) (results : List Value) : Prop := AllOf e.Admits results

theorem admits_headD {vs : List Value} (hvs : AllOf e.Admits vs) : e.Admits (vs.headD .nil) := by
  cases vs with
  | nil => exact Engine.innate_admits e _ rfl
  | cons v rest => exact hvs v List.mem_cons_self

theorem keeps_runFunction (hcall : call.Keeps) (hf : e.Admits f) (hargs : AllOf e.Admits args) :
    Keeps stack e (runFunction call f args) Returned := by
  intro hs
  obtain ⟨hs', hfollows, hending⟩ := hcall stack e f args hs hf hargs
  unfold runFunction
  generalize call f args e = done at hs' hfollows hending ⊢
  obtain ⟨ending, e'⟩ := done
  cases ending with
  | finished values => exact ⟨hs', hfollows, hending⟩
  | yielded values => exact ⟨hs', hfollows, hending⟩
  | failed raised => exact ⟨hs', hfollows, hending⟩

theorem keeps_raisedFailure (hcall : call.Keeps) (left : Nat) {raised : Value}
    (hr : e.Admits raised) :
    Keeps stack e (raisedFailure call left raised) fun e' f => e'.Admits (.failure f) := by
  -- `tostring` is asked for the text of what was raised, and may raise something itself
  induction left generalizing e raised with
  | zero =>
    unfold raisedFailure
    split
    · exact keeps_pure hr
    · exact keeps_pure (Engine.admits_failure rfl)
    next heq _ => cases heq
  | succ left ih =>
    unfold raisedFailure
    split
    · exact keeps_pure hr
    next heq _ => cases heq
    next heq _ =>
      cases heq
      have htext : e.Admits (.builtin .toText) := Engine.innate_admits e _ rfl
      refine (keeps_runFunction hcall htext (List.forall_mem_singleton.mpr hr)).bind
        fun returned e' _ hreturned => ?_
      cases returned with
      | ok results => exact keeps_pure (Engine.admits_failure rfl)
      | error other => exact ih hreturned

theorem keeps_runUnprotected (hcall : call.Keeps) (hf : e.Admits f)
    (hargs : AllOf e.Admits args) : Keeps stack e (runUnprotected call f args) Results := by
  refine (keeps_runFunction hcall hf hargs).bind fun returned e₁ _ hreturned => ?_
  cases returned with
  | ok results => exact keeps_pure hreturned
  | error raised =>
    refine (keeps_raisedFailure hcall maxRaised hreturned).bind fun failure e₂ _ hfailure => ?_
    exact keeps_raise hfailure

theorem keeps_runProtected (hcall : call.Keeps) (hf : e.Admits f)
    (hargs : AllOf e.Admits args) : Keeps stack e (runProtected call f args) Returned := by
  have hpcall : e.Admits (.builtin .pcall) := Engine.innate_admits e _ rfl
  have hall : AllOf e.Admits (f :: args) := List.forall_mem_cons.mpr ⟨hf, hargs⟩
  refine (keeps_runUnprotected hcall hpcall hall).attempt.bind fun outcome e₁ _ houtcome => ?_
  cases outcome with
  | error failure => exact keeps_pure houtcome
  | ok results =>
    have htail : AllOf e₁.Admits results.tail := fun v hv =>
      houtcome v (List.mem_of_mem_tail hv)
    -- the first result of `pcall` says whether the function has returned
    split
    next heq => cases heq
    next heq =>
      cases heq
      split
      · exact keeps_pure htail
      · exact keeps_pure (R := Returned) (admits_headD htail)

/-- A protected function is answered for in any case. -/
theorem runProtected_ok (call : Caller) (f : Value) (args : List Value) (e : Engine) :
    ∃ returned e', runProtected call f args e = (.ok returned, e') := by
  unfold runProtected
  rw [run_bind]
  have hattempt : attempt (runUnprotected call (.builtin .pcall) (f :: args)) e =
      (.ok (runUnprotected call (.builtin .pcall) (f :: args) e).1,
        (runUnprotected call (.builtin .pcall) (f :: args) e).2) := rfl
  rw [hattempt]
  generalize runUnprotected call (.builtin .pcall) (f :: args) e = done
  obtain ⟨outcome, e'⟩ := done
  cases outcome with
  | error failure => exact ⟨_, _, rfl⟩
  | ok results =>
    simp only
    split <;> exact ⟨_, _, rfl⟩

/-! ### The two ends of a protected call -/

/-- An operation of the host that does not end the computation if it fails. -/
theorem attempt_onHost {α : Type} {g : Host → Outcome α × Host} {r : Outcome α} {host : Host}
    (hg : g e.host = (r, host)) : attempt (onHost g) e = (.ok r, { e with host }) := by
  unfold attempt onHost
  simp only [hg]

/-- What a protected call does when its function is done. -/
def endWork (frame : FrameId) (savepoint : Nat) : Except Value (List Value) → Serving (List Value)
  | .ok results => keepWork frame savepoint results
  | .error raised => undoWork frame savepoint raised

theorem underSavepoint_eq (hw : e.host.Willing) {returned : Except Value (List Value)}
    (hdone : runProtected call f args e.begun = (.ok returned, e')) :
    underSavepoint call f args e =
      endWork e.arena.pushFrame.1 e.host.nextNumber returned e' := by
  unfold underSavepoint
  rw [run_bind]
  have hpush : pushFrame e = (.ok e.arena.pushFrame.1, { e with arena := e.arena.pushFrame.2 }) :=
    rfl
  rw [hpush]
  simp only
  have hbegin : attempt (onHost Host.beginProtected) { e with arena := e.arena.pushFrame.2 } =
      (.ok (.ok e.host.nextNumber), e.begun) :=
    attempt_onHost (e := { e with arena := e.arena.pushFrame.2 }) (Host.beginProtected_eq hw)
  rw [run_bind, hbegin]
  show (runProtected call f args >>= endWork e.arena.pushFrame.1 e.host.nextNumber) e.begun = _
  rw [run_bind, hdone]

/-- The function has returned: the frame ends normally, and so does the savepoint if it is the
innermost one. -/
theorem keepWork_spec (hs : e.Sound stack) (hin : e.begun.Follows e')
    (hs' : e'.Sound (e.arena.pushFrame.1 :: stack)) (results : List Value) :
    ∃ r arena host, keepWork e.arena.pushFrame.1 e.host.nextNumber results e' =
        (r, { e' with arena, host }) ∧
      ({ e' with arena, host } : Engine).Sound stack ∧ e.Follows { e' with arena, host } ∧
      (e'.poisoned = false → r = .ok (.bool true :: results) ∧ host.tables = e'.host.tables) ∧
      (r = .ok (.bool true :: results) ∨ ∃ g, g.isFatal = false ∧ r = .error g) := by
  obtain ⟨released, host, hrelease, hhost, hcatch, hgood⟩ :=
    hin.host.releaseProtected hs.host
  obtain ⟨arena, hpop, hsound, hfollows, -⟩ := hs.endFrame hin hs' .normal
  -- the frame is ended whether the savepoint could be released or not
  have hrun : keepWork e.arena.pushFrame.1 e.host.nextNumber results e' =
      (released.map fun _ => .bool true :: results, { e' with arena, host }) := by
    unfold keepWork
    rw [run_bind, attempt_onHost hrelease]
    simp only
    rw [run_bind]
    have hend : popFrame e.arena.pushFrame.1 .normal { e' with host } =
        (.ok (), { e' with arena, host }) := hpop host e'.poisoned
    rw [hend]
    cases released <;> rfl
  have hinnermost (hp : e'.poisoned = false) := hgood (hin.balanced hp)
  refine ⟨_, arena, host, hrun, hs'.withWork hsound (hhost.willing hs.host), ?_, fun hp => ?_, ?_⟩
  · have hmark : host.failRollback = e'.host.failRollback := by
      have hkept := Host.failRollback_releaseProtected hs'.host e.host.nextNumber
      rwa [hrelease] at hkept
    exact hin.ended hfollows hhost id (fun hp => (hinnermost hp).2.1) hmark.trans
      (Engine.not_faulted hmark)
  · obtain ⟨rfl, -, htables⟩ := hinnermost hp
    exact ⟨rfl, htables⟩
  · cases released with
    | ok _ => exact .inl rfl
    | error g => exact .inr ⟨g, hcatch g rfl, rfl⟩

/-- What the script gets, in an engine with at most another heap. -/
theorem caught_spec (e : Engine) (raised : Value) :
    ∃ v heap, caught raised e = (.ok v, { e with heap }) := by
  cases raised <;> exact ⟨_, _, rfl⟩

theorem keeps_caught {raised : Value} (hr : e.Admits raised) :
    Keeps stack e (caught raised) Engine.Admits := by
  cases raised with
  | failure g => exact (keeps_reportTable g.report).mono fun _ _ _ h => h.1
  | _ => exact keeps_pure hr

theorem undoWork_of_catchable {frame : FrameId} {savepoint : Nat} {raised : Value}
    (hf : (Engine.failureOf e'.heap raised).isFatal = false) :
    undoWork frame savepoint raised e' =
      (do
        match ← attempt (onHost fun h => h.rollbackSavepoint savepoint) with
        | .error f =>
          modify fun e => { e with poisoned := true }
          let _ ← attempt (popFrame frame .aborted)
          throw (doubleFault f)
        | .ok () =>
          popFrame frame .aborted
          return [.bool false, ← caught raised] : Serving (List Value)) e' := by
  have hgoesOn : ¬ (Engine.failureOf e'.heap raised).isFatal = true := by
    rw [hf]
    exact Bool.false_ne_true
  exact congrFun (if_neg hgoesOn) e'

/-- The function has raised something that can be caught, and the rollback goes well: savepoints
and tables are those of before, and so are the layouts. -/
theorem undoWork_eq (hs : e.Sound stack) (hin : e.begun.Follows e')
    (hs' : e'.Sound (e.arena.pushFrame.1 :: stack)) {raised : Value}
    (hf : (Engine.failureOf e'.heap raised).isFatal = false)
    (hrollback : (e'.host.rollbackSavepoint e.host.nextNumber).1 = .ok ()) :
    ∃ arena host, undoWork e.arena.pushFrame.1 e.host.nextNumber raised e' =
        (do return [.bool false, ← caught raised] : Serving (List Value)) { e' with arena, host } ∧
      ({ e' with arena, host } : Engine).Sound stack ∧ e.Follows { e' with arena, host } ∧
      host.savepoints = e.host.savepoints ∧ host.tables = e.host.tables ∧
      ∀ id, arena.layout? id = e.arena.layout? id := by
  obtain ⟨rolled, host, heq, hhost, hgood, -⟩ := hin.host.rollbackSavepoint
  rw [heq] at hrollback
  cases hrollback
  obtain ⟨hsavepoints, htables⟩ := hgood rfl
  obtain ⟨arena, hpop, hsound, hfollows, hlayout⟩ := hs.endFrame hin hs' .aborted
  have hmark := Host.failRollback_of_rollback heq
  refine ⟨arena, host, ?_, hs'.withWork hsound (hhost.willing hs.host),
    hin.ended hfollows hhost id (fun _ => hsavepoints) hmark.trans (Engine.not_faulted hmark),
    hsavepoints, htables, hlayout rfl⟩
  rw [undoWork_of_catchable hf, run_bind, attempt_onHost heq]
  simp only
  rw [run_bind]
  have hend : popFrame e.arena.pushFrame.1 .aborted { e' with host } =
      (.ok (), { e' with arena, host }) := hpop host e'.poisoned
  rw [hend]

/-- A fatal failure is handed on; the savepoint is left over. -/
theorem undoWork_of_isFatal (hs : e.Sound stack) (hin : e.begun.Follows e')
    (hs' : e'.Sound (e.arena.pushFrame.1 :: stack)) {raised : Value} (hr : e'.Admits raised)
    (hf : (Engine.failureOf e'.heap raised).isFatal = true) :
    ∃ arena, undoWork e.arena.pushFrame.1 e.host.nextNumber raised e' =
        (.error (Engine.failureOf e'.heap raised), { e' with arena }) ∧
      ({ e' with arena } : Engine).Sound stack ∧ e.Follows { e' with arena } := by
  obtain ⟨arena, hpop, hsound, hfollows, -⟩ := hs.endFrame hin hs' .aborted
  -- so the savepoint that is left over need not be accounted for
  have hpoisoned : e'.poisoned = true := hr _ (Engine.eq_failure_of_isFatal hf) hf
  have hhost := (Host.follows_begun e.host).trans hin.host
  refine ⟨arena, ?_, hs'.withWork hsound hs'.host, hin.ended hfollows hhost
    id (fun hp => absurd hpoisoned (by simp [hp])) id (Engine.not_faulted rfl)⟩
  unfold undoWork
  rw [run_bind]
  have hget : (get : Serving Engine) e' = (.ok e', e') := rfl
  rw [hget]
  simp only [hf, if_true]
  rw [run_bind]
  have hend : popFrame e.arena.pushFrame.1 .aborted e' = (.ok (), { e' with arena }) :=
    hpop e'.host e'.poisoned
  rw [hend]
  rfl

/-- A rollback that fails poisons the engine. -/
theorem undoWork_of_fault (hs : e.Sound stack) (hin : e.begun.Follows e')
    (hs' : e'.Sound (e.arena.pushFrame.1 :: stack)) {raised : Value}
    (hf : (Engine.failureOf e'.heap raised).isFatal = false) {fault : Failure}
    (hrollback : (e'.host.rollbackSavepoint e.host.nextNumber).1 = .error fault) :
    ∃ arena host, undoWork e.arena.pushFrame.1 e.host.nextNumber raised e' =
        (.error (doubleFault fault), { e' with arena, host, poisoned := true }) ∧
      ({ e' with arena, host, poisoned := true } : Engine).Sound stack ∧
      e.Follows { e' with arena, host, poisoned := true } := by
  obtain ⟨rolled, host, heq, hhost, -, hgood⟩ := hin.host.rollbackSavepoint
  have hunmarked : host.failRollback = false := by
    have hgone := Host.failRollback_rollbackSavepoint e'.host e.host.nextNumber
    rwa [heq] at hgone
  rw [heq] at hrollback
  cases hrollback
  obtain ⟨arena, hpop, hsound, hfollows, -⟩ := hs.endFrame hin hs' .aborted
  -- every value is admitted in an engine that is poisoned
  have hall (v : Value) : ({ e' with arena, host, poisoned := true } : Engine).Admits v :=
    fun _ _ _ => rfl
  refine ⟨arena, host, ?_,
    ⟨hsound, hs'.shared, ?_, fun v _ => hall v, hhost.willing hs.host, hs'.registered⟩,
    hin.ended hfollows hhost (fun _ => rfl) (fun hp => nomatch hp) (fun _ => hunmarked)
      fun hp => ?_⟩
  · rw [undoWork_of_catchable hf, run_bind, attempt_onHost heq]
    simp only
    rw [run_bind]
    have hmodify : (modify fun e => { e with poisoned := true } : Serving Unit) { e' with host } =
        (.ok (), { e' with host, poisoned := true }) := rfl
    rw [hmodify]
    simp only
    rw [run_bind]
    have hend : attempt (popFrame e.arena.pushFrame.1 .aborted) { e' with host, poisoned := true } =
        (.ok (.ok ()), { e' with arena, host, poisoned := true }) := by
      unfold attempt popFrame
      simp only [hpop]
    rw [hend]
    rfl
  · exact hs'.heap.mono fun v _ => hall v
  · -- the savepoint was the innermost one, so the host was told to fail
    refine iff_of_true rfl ⟨?_, hunmarked⟩
    cases hmark : e'.host.failRollback with
    | true => rfl
    | false => cases hgood hmark (hin.balanced hp)

/-! ### Protected calls -/

/-- However the function ended, the protected call keeps the invariant. -/
theorem keeps_endWork (hs : e.Sound stack) (hin : e.begun.Follows e')
    (hs' : e'.Sound (e.arena.pushFrame.1 :: stack)) {returned : Except Value (List Value)}
    (hreturned : Returned e' returned) :
    ∃ r e'', endWork e.arena.pushFrame.1 e.host.nextNumber returned e' = (r, e'') ∧
      e''.Sound stack ∧ e.Follows e'' ∧ Answers Results e'' r := by
  cases returned with
  | ok results =>
    obtain ⟨r, arena, host, hrun, hsound, hfollows, -, hr⟩ := keepWork_spec hs hin hs' results
    refine ⟨r, _, hrun, hsound, hfollows, ?_⟩
    rcases hr with rfl | ⟨g, hg, rfl⟩
    · exact List.forall_mem_cons.mpr ⟨Engine.innate_admits _ _ rfl, hreturned⟩
    · exact Engine.admits_failure hg
  | error raised =>
    cases hf : (Engine.failureOf e'.heap raised).isFatal with
    | true =>
      obtain ⟨arena, hrun, hsound, hfollows⟩ := undoWork_of_isFatal hs hin hs' hreturned hf
      refine ⟨_, _, hrun, hsound, hfollows, ?_⟩
      -- the failure that is thrown is the very value that was raised
      show Engine.Admits e' (.failure _)
      rw [← Engine.eq_failure_of_isFatal hf]
      exact hreturned
    | false =>
      cases hrollback : (e'.host.rollbackSavepoint e.host.nextNumber).1 with
      | error fault =>
        obtain ⟨arena, host, hrun, hsound, hfollows⟩ := undoWork_of_fault hs hin hs' hf hrollback
        exact ⟨_, _, hrun, hsound, hfollows, fun _ _ _ => rfl⟩
      | ok _ =>
        obtain ⟨arena, host, hrun, hsound, hfollows, -⟩ := undoWork_eq hs hin hs' hf hrollback
        have hraised : ({ e' with arena, host } : Engine).Admits raised := hreturned
        have hcaught : Keeps stack { e' with arena, host }
            (do return [.bool false, ← caught raised] : Serving (List Value)) Results :=
          (keeps_caught hraised).bind fun v e'' _ hv => keeps_pure (List.forall_mem_cons.mpr
            ⟨Engine.innate_admits _ _ rfl, List.forall_mem_singleton.mpr hv⟩)
        obtain ⟨hsound', hfollows', hanswer⟩ := hcaught hsound
        exact ⟨_, _, hrun, hsound', hfollows.trans hfollows', hanswer⟩

theorem keeps_underSavepoint (hcall : call.Keeps) (hf : e.Admits f)
    (hargs : AllOf e.Admits args) : Keeps stack e (underSavepoint call f args) Results := by
  intro hs
  have hdone := keeps_runProtected hcall (e := e.begun) hf hargs hs.begun
  obtain ⟨returned, e', heq⟩ := runProtected_ok call f args e.begun
  rw [heq] at hdone
  obtain ⟨hs', hin, hreturned⟩ := hdone
  obtain ⟨r, e'', hend, hsound, hfollows, hanswer⟩ := keeps_endWork hs hin hs' hreturned
  rw [underSavepoint_eq hs.host heq, hend]
  exact ⟨hsound, hfollows, hanswer⟩

theorem keeps_protectedCall (hcall : call.Keeps) (hargs : AllOf e.Admits args) :
    Keeps stack e (protectedCall call args) Results := by
  unfold protectedCall
  split
  · exact keeps_throw rfl
  next f rest =>
    obtain ⟨hf, hrest⟩ := List.forall_mem_cons.mp hargs
    split
    · exact keeps_throw_bind rfl _
    · refine keeps_get ?_
      split
      · exact keeps_throw_bind rfl _
      · exact keeps_underSavepoint hcall hf hrest

end Serving

end StoredRoutine
