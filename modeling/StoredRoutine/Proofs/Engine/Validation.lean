import StoredRoutine.Engine.Start
import StoredRoutine.Proofs.Engine.Invocations
import StoredRoutine.Proofs.Engine.Routines
import StoredRoutine.Proofs.Script.OneFunction

/-!
# `StoredRoutine.Proofs.Engine.Validation`: a routine is compiled without doing anything

To get hold of the function of a routine its source is run. If the body of the routine is enclosed
in the function, all that happens is that the function is made: neither the host nor anything that
scripts share is touched (`Engine.Untouched`), whether the routine compiles or not
(`Engine.validate_untouched`). A body that is not enclosed may have statements of its own beside the
function, and these are executed.
-/

set_option autoImplicit false

namespace StoredRoutine

open Script (Control Ending Focus FunctionCode Heap Machine.advance Value)

namespace Engine

variable {e e' e'' : Engine}

/-- Between two engines some types were described, some routine was compiled, time has passed, and
scripts have come by variables and functions, but nothing else has happened. -/
def Untouched (e e' : Engine) : Prop :=
  ∃ types routines clock cells closures,
    e' = { e with types, routines, clock, heap := { e.heap with cells, closures } }

theorem Untouched.refl (e : Engine) : e.Untouched e := ⟨_, _, _, _, _, rfl⟩

theorem Untouched.trans (h : e.Untouched e') (h' : e'.Untouched e'') : e.Untouched e'' := by
  obtain ⟨_, _, _, _, _, rfl⟩ := h
  obtain ⟨_, _, _, _, _, rfl⟩ := h'
  exact ⟨_, _, _, _, _, rfl⟩

theorem untouched_heap {heap : Heap} (hgrows : e.heap.Grows heap) (clock : Clock) :
    e.Untouched { e with heap, clock } := by
  obtain ⟨cells, closures, rfl⟩ := hgrows
  exact ⟨_, _, clock, _, _, rfl⟩

/-! ### Runs -/

/-- A run that needs no table touches nothing. By induction on the number of turns; a look at the
time may end it, with a failure. -/
theorem run_untouched {c : Control} (hc : c.Plain e.heap) (fuel : Nat) :
    e.Untouched (run fuel c e).2 ∧ (run fuel c e).1.Plain := by
  induction fuel generalizing c e with
  | zero => exact ⟨.refl e, .failed (.failure _)⟩
  | succ fuel ih =>
    have hturn := Script.Machine.advance_plain hc stepsAtOnce e.instructionsDue
    unfold run
    dsimp only
    generalize Machine.advance stepsAtOnce e.instructionsDue e.heap c = turn at hturn ⊢
    obtain ⟨left, s⟩ := turn
    cases s with
    | next heap c' =>
      obtain ⟨hgrows, hc'⟩ := hturn
      dsimp only
      split
      · -- it is time for a look
        have hlooked : (({ e with heap }.countTurn left).look c').1.Plain heap := by
          unfold look
          dsimp only
          split
          · exact hc'.withFocus (.raise (.failure _))
          · exact hc'
        obtain ⟨huntouched, hending⟩ :=
          ih (e := (({ e with heap }.countTurn left).look c').2) hlooked
        exact ⟨(untouched_heap hgrows _).trans huntouched, hending⟩
      · obtain ⟨huntouched, hending⟩ := ih (e := { e with heap }.countTurn left) hc'
        exact ⟨(untouched_heap hgrows _).trans huntouched, hending⟩
    | request s args position heap c' => exact hturn.elim
    | ended ending heap =>
      obtain ⟨hgrows, hending⟩ := hturn
      exact ⟨untouched_heap hgrows _, hending⟩

theorem callFunction_untouched {f : Value} {args : List Value}
    (hf : (Focus.call hostPosition f args).Plain e.heap) :
    e.Untouched (callFunction f args e).2 ∧ (callFunction f args e).1.Plain :=
  run_untouched ⟨rfl, rfl, hf⟩ maxTurns

end Engine

namespace Serving

variable {e : Engine}

theorem checkUsable_usable (hp : e.poisoned = false) : checkUsable e = (.ok (), e) := by
  have hget : (get : Serving Engine) e = (.ok e, e) := rfl
  unfold checkUsable
  rw [run_bind, hget]
  simp only [hp]
  rfl

/-- A function that needs no table answers, or raises a message. -/
theorem runFunction_untouched {f : Value} {args : List Value}
    (hf : (Focus.call Engine.hostPosition f args).Plain e.heap) :
    ∃ r e', runFunction Engine.callFunction f args e = (.ok r, e') ∧ e.Untouched e' ∧
      ∀ raised, r = .error raised → raised.IsMessage := by
  obtain ⟨huntouched, hending⟩ := Engine.callFunction_untouched hf
  unfold runFunction
  generalize Engine.callFunction f args e = done at huntouched hending ⊢
  obtain ⟨ending, e'⟩ := done
  cases hending with
  | finished values => exact ⟨_, e', rfl, huntouched, fun _ h => by cases h⟩
  | failed he => exact ⟨_, e', rfl, huntouched, fun _ h => by cases h; exact he⟩

/-- By induction on how often the text of what was raised may raise something. -/
theorem raisedFailure_untouched {raised : Value} (hraised : raised.IsMessage) (left : Nat) :
    e.Untouched (raisedFailure Engine.callFunction left raised e).2 := by
  induction left generalizing raised e with
  | zero => cases hraised <;> exact .refl e
  | succ left ih =>
    cases hraised with
    | failure f => exact .refl e
    | string b =>
      obtain ⟨r, e', hrun, huntouched, hr⟩ := runFunction_untouched (e := e) (.text _ b)
      unfold raisedFailure
      rw [run_bind, hrun]
      -- the text of a string is asked for in a run of its own
      cases r with
      | ok results => exact huntouched
      | error other => exact huntouched.trans (ih (hr other rfl))

theorem runUnprotected_untouched {f : Value} {args : List Value}
    (hf : (Focus.call Engine.hostPosition f args).Plain e.heap) :
    e.Untouched (runUnprotected Engine.callFunction f args e).2 := by
  obtain ⟨r, e', hrun, huntouched, hr⟩ := runFunction_untouched hf
  unfold runUnprotected
  rw [run_bind, hrun]
  cases r with
  | ok results => exact huntouched
  | error raised =>
    have hfailure := raisedFailure_untouched (e := e') (hr raised rfl) maxRaised
    dsimp only
    rw [run_bind]
    generalize raisedFailure Engine.callFunction maxRaised raised e' = done at hfailure ⊢
    obtain ⟨answer, e''⟩ := done
    cases answer <;> exact huntouched.trans hfailure

/-! ### Compiling -/

/-- The source of an enclosed body becomes a function that needs no table. -/
theorem load_enclosed {d : RoutineDefinition} (hd : d.Enclosed) (name : String) :
    (∃ failure, load name d.chunk e = (.error failure, e)) ∨
      ∃ f e', load name d.chunk e = (.ok f, e') ∧ e.Untouched e' ∧
        (Focus.call Engine.hostPosition f []).Plain e'.heap := by
  unfold load
  dsimp only
  cases name.toUTF8.data.findIdx? (· == 0) with
  | some place => exact .inl ⟨_, rfl⟩
  | none =>
    cases hsource : FunctionCode.ofSource d.chunk.toUTF8 with
    | error f => exact .inl ⟨_, rfl⟩
    | ok code =>
      have hcode : code.IsPlain := by
        unfold FunctionCode.ofSource at hsource
        cases hread : Script.Block.read d.chunk.toUTF8 with
        | error f =>
          rw [hread] at hsource
          cases hsource
        | ok b =>
          rw [hread] at hsource
          exact FunctionCode.isPlain_definesOne (hd b hread) hsource
      refine .inr ⟨_, _, rfl, ⟨_, _, _, _, _, rfl⟩, .function _ _ fun g hg => ?_⟩
      -- the function is the last one that was made
      have hlast : some g = some _ := hg.symm.trans Array.getElem?_push_size
      cases hlast
      exact hcode

theorem compile_untouched {d : RoutineDefinition} (hd : d.Enclosed) :
    e.Untouched (compile d e).2 := by
  have hname : (get : Serving Engine) e = (.ok e, e) := rfl
  have hrun : e.Untouched ((load e.options.chunkName d.chunk >>= fun f =>
      runUnprotected Engine.callFunction f []) e).2 := by
    rw [run_bind]
    rcases load_enclosed (e := e) hd e.options.chunkName with
      ⟨failure, hload⟩ | ⟨f, e', hload, huntouched, hf⟩
    · rw [hload]
      exact .refl e
    · rw [hload]
      exact huntouched.trans (runUnprotected_untouched hf)
  unfold compile
  rw [run_bind, hname]
  dsimp only
  rw [run_bind]
  unfold attempt
  generalize (load e.options.chunkName d.chunk >>= fun f =>
      runUnprotected Engine.callFunction f []) e = done at hrun ⊢
  obtain ⟨answer, e'⟩ := done
  dsimp only
  -- whether the source has returned a function is only looked at
  split
  · exact hrun
  · split
    · split
      · exact hrun
      · exact hrun
    · exact hrun

theorem lookup_untouched {id : TypeId}
    (hd : ∀ d, e.host.lookupRoutine id = some d → d.Enclosed) :
    e.Untouched (lookup compile id e).2 := by
  have hget : (get : Serving Engine) e = (.ok e, e) := rfl
  unfold lookup
  rw [run_bind, hget]
  dsimp only
  cases hfound : e.host.lookupRoutine id with
  | none => exact .refl e
  | some d =>
    dsimp only
    cases e.routines.current? id d.stamp with
    -- a routine that is known is not compiled again
    | some r => exact .refl e
    | none =>
      dsimp only
      obtain ⟨answer, types, hcheck⟩ := describes_checkDefinition d e
      rw [run_bind, hcheck]
      have hchecked : e.Untouched { e with types } := ⟨_, _, _, _, _, rfl⟩
      cases answer with
      | error f => exact hchecked
      | ok _ =>
        dsimp only
        rw [run_bind]
        have hcompiled := compile_untouched (e := { e with types }) (hd d hfound)
        generalize compile d { e with types } = done at hcompiled ⊢
        obtain ⟨answer, e'⟩ := done
        cases answer with
        | error f => exact hchecked.trans hcompiled
        | ok f => exact (hchecked.trans hcompiled).trans ⟨_, _, _, _, _, rfl⟩

end Serving

/-- Neither a host that validates a routine nor the first call of it, which compiles the routine,
executes anything of the source of an enclosed body. -/
theorem Engine.validate_untouched (e : Engine) (id : TypeId)
    (hd : ∀ d, e.host.lookupRoutine id = some d → d.Enclosed) :
    e.Untouched (e.validate id).2 ∧ e.Untouched (Serving.lookup Serving.compile id e).2 := by
  have hlookup := Serving.lookup_untouched hd
  refine ⟨?_, hlookup⟩
  unfold validate
  rw [run_bind]
  cases hp : e.poisoned with
  | true =>
    rw [Serving.checkUsable_poisoned hp]
    exact .refl e
  | false =>
    rw [Serving.checkUsable_usable hp]
    dsimp only
    rw [run_bind]
    generalize Serving.lookup Serving.compile id e = done at hlookup ⊢
    obtain ⟨answer, e'⟩ := done
    cases answer <;> exact hlookup

/-- A routine with an effect. -/
def sending : RoutineDefinition :=
  { id := 0, name := "f", source := "print('called')", argNames := [], argTypes := [],
    resultType := Scalar.int4.id, returnsSet := false, stamp := .ofTransaction 0 }

theorem enclosed_sending : sending.Enclosed := by decide +kernel

example : ¬ ({ sending with source := "end print('compiled') do" }).Enclosed := by decide +kernel

/-- An engine whose host has the routine. -/
def sendingEngine : Engine :=
  { Engine.bare {} Host.new with host := (Host.new.createRoutine sending).2 }

theorem Engine.validate_untouched_sending :
    sendingEngine.Untouched (sendingEngine.validate Host.firstId).2 ∧
      sendingEngine.Untouched (Serving.lookup Serving.compile Host.firstId sendingEngine).2 := by
  refine validate_untouched sendingEngine Host.firstId fun d hd => ?_
  have hfound : sendingEngine.host.lookupRoutine Host.firstId = some { sending with
    id := Host.firstId, stamp := Host.new.nextStamp.1 } := rfl
  cases hfound.symm.trans hd
  exact enclosed_sending

end StoredRoutine
