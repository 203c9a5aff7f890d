import StoredRoutine.Engine.Run
import StoredRoutine.Proofs.Engine.Protected

/-!
# `StoredRoutine.Proofs.Engine.Run`: runs keep the invariant

Every service keeps the invariant if the functions that it calls do (`keeps_serve`). A run makes
progress in turns. The machine works on the heap alone, and no value that it comes by is foreign
to it but those that it was given. So all values stay admitted, and a run keeps the invariant by
induction on the number of its turns (`Engine.run_keeps`). The functions that services call are run
with fewer turns, so the induction covers them, however deep protected calls are nested.
-/

set_option autoImplicit false

namespace StoredRoutine

open Script (AllOf Announcer Control Ending Innate ObjectId ObjectKind Service Value)

namespace Serving

variable {e : Engine} {stack : List FrameId} {call : Caller} {args : List Value}

theorem steady_notice (h : Host) (level : NoticeLevel) (text : String) :
    h.Steady (h.notice level text) := ⟨rfl, Nat.le_refl _, rfl, rfl, rfl, rfl, Iff.rfl⟩

/-! ### Services -/

theorem keeps_announce (hcall : call.Keeps) (a : Announcer) (hargs : AllOf e.Admits args) :
    Keeps stack e (announce call a args) Any := by
  refine keeps_ofSound fun hs => ?_
  have htext := hs.heap.global (Engine.innate_admits e) "tostring"
  unfold announce
  refine keeps_get ?_
  dsimp only
  split
  · exact keeps_throw_bind rfl _
  · refine Keeps.bind (keeps_mapM (S := Any) (fun _ _ _ _ _ => trivial) fun v hv e₁ h₁ => ?_)
      fun parts e₂ _ _ => keeps_modify fun hs₂ => ?_
    · have harg := List.forall_mem_singleton.mpr (h₁.admits (hargs v hv))
      refine (keeps_runUnprotected hcall (h₁.admits htext) harg).bind fun results e₃ _ _ => ?_
      exact (keeps_ofOutcome (R := Any) (Arguments.catchable_bytes _) fun _ _ => trivial).bind
        fun _ _ _ _ => keeps_pure trivial
    · have hsteady := steady_notice e₂.host a.level ("\t".intercalate parts)
      exact ⟨hs₂.withHost hsteady, Engine.Follows.ofSteady rfl hsteady rfl rfl rfl⟩

theorem keeps_ownArguments (kind : ObjectKind) (args : List Value) :
    Keeps stack e (ownArguments kind args) Any := by
  unfold ownArguments
  split
  · split
    · exact keeps_pure trivial
    · exact keeps_throw rfl
  · exact keeps_throw rfl

theorem keeps_given {α : Type} {o : Outcome α} (ho : Outcome.Catchable o) :
    Keeps stack e (ofOutcome o) Any := keeps_ofOutcome ho fun _ _ => trivial

/-- A service that answers one value. -/
theorem Keeps.single {x : Serving Value} (hx : Keeps stack e x Engine.Admits) :
    Keeps stack e (do return [← x]) Results :=
  hx.bind fun _ _ _ hv => keeps_pure (List.forall_mem_singleton.mpr hv)

/-- A service that answers nothing. -/
theorem Keeps.silent {x : Serving Unit} (hx : Keeps stack e x Any) :
    Keeps stack e (do x; return ([] : List Value)) Results :=
  hx.bind fun _ _ _ _ => keeps_pure fun _ hv => absurd hv List.not_mem_nil

theorem keeps_servePlan (s : Service) (args : List Value) :
    Keeps stack e (servePlan s args) Results := by
  unfold servePlan
  refine (keeps_ownArguments _ args).bind fun (id, rest) e₁ _ _ => ?_
  have hoption (v : Value) := Arguments.catchable_optional Arguments.catchable_table v
  cases s with
  | planExecute =>
    refine (keeps_given (hoption _)).bind fun given e₂ _ _ => ?_
    refine (keeps_given (Arguments.catchable_limit _)).bind fun count e₃ _ _ => ?_
    refine (keeps_planOf id).bind fun p e₄ _ _ => ?_
    exact (keeps_bindParams p given).bind fun params e₅ _ _ => (keeps_execute _ _ _ _).single
  | planCursor =>
    refine (keeps_given (hoption _)).bind fun given e₂ _ _ => ?_
    refine (keeps_given (Arguments.catchable_optional Arguments.catchable_text _)).bind
      fun name e₃ _ _ => ?_
    refine (keeps_planOf id).bind fun p e₄ _ _ => ?_
    refine (keeps_bindParams p given).bind fun params e₅ _ _ => ?_
    exact (keeps_openPortal _ _ _ _).bind fun portal e₆ _ _ => (keeps_newCursor portal).single
  | planRows =>
    refine (keeps_given (hoption _)).bind fun given e₂ _ _ => ?_
    refine (keeps_planOf id).bind fun p e₃ _ _ => ?_
    refine (keeps_bindParams p given).bind fun params e₄ _ _ => ?_
    exact (keeps_openPortal _ _ _ _).bind fun portal e₅ _ _ => (keeps_newIterator portal).single
  | planSave =>
    exact (keeps_savePlan id).bind fun _ e₂ _ _ =>
      keeps_pure (List.forall_mem_singleton.mpr (Engine.innate_admits e₂ _ rfl))
  | _ =>
    exact (keeps_planOf id).bind fun p e₂ _ _ =>
      keeps_pure (List.forall_mem_singleton.mpr (Engine.innate_admits e₂ _ rfl))

theorem catchable_position (args : List Value) : Outcome.Catchable (position args) :=
  (Arguments.catchable_whole _).bind fun _ _ => catchable_ok _

theorem keeps_serveCursor (s : Service) (args : List Value) :
    Keeps stack e (serveCursor s args) Results := by
  unfold serveCursor
  refine (keeps_ownArguments _ args).bind fun (id, rest) e₁ _ _ => ?_
  have hoption (v : Value) := Arguments.catchable_optional Arguments.catchable_whole v
  cases s with
  | cursorFetch =>
    exact (keeps_given (hoption _)).bind fun count e₂ _ _ => (keeps_fetchRows _ _ _).single
  | cursorMove =>
    exact (keeps_given (hoption _)).bind fun count e₂ _ _ => (keeps_moveCursor _ _ _).silent
  | cursorFetchAt =>
    exact (keeps_given (catchable_position rest)).bind fun _ e₂ _ _ =>
      (keeps_fetchRows _ _ _).single
  | cursorMoveTo =>
    exact (keeps_given (catchable_position rest)).bind fun _ e₂ _ _ =>
      (keeps_moveCursor _ _ _).silent
  | _ => exact (keeps_closeCursor id).silent

theorem admits_nth (hargs : AllOf e.Admits args) (i : Nat) : e.Admits (Arguments.nth args i) := by
  unfold Arguments.nth
  rw [List.getD_eq_getElem?_getD]
  cases hv : args[i]? with
  | none => exact Engine.innate_admits e _ rfl
  | some v => exact hargs v (List.mem_of_getElem? hv)

/-- Every service keeps the invariant if the functions that it calls do. -/
theorem keeps_serve (hcall : call.Keeps) (s : Service) (hargs : AllOf e.Admits args) :
    Keeps stack e (serve call s args) Results := by
  unfold serve
  cases s with
  | announce a => exact (keeps_announce hcall a hargs).silent
  | setShared =>
    refine (keeps_given (Arguments.catchable_bytes _)).bind fun name e₁ h₁ _ => Keeps.silent ?_
    -- The table of shared values is written, and the value was admitted before the name was read.
    refine keeps_modify fun hs => ⟨?_, Engine.Follows.ofSame rfl rfl rfl rfl rfl⟩
    have hnew := h₁.admits (admits_nth hargs 1)
    exact hs.withHeap (hs.heap.rawSet (Engine.innate_admits e₁) _ (Engine.innate_admits e₁ _ rfl)
      hnew)
  | denyGlobal =>
    exact (keeps_given (Arguments.catchable_bytes _)).bind fun name e₁ _ _ => keeps_throw rfl
  | protectedCall _ => exact keeps_protectedCall hcall hargs
  | execute =>
    refine (keeps_given (Arguments.catchable_text _)).bind fun sql e₁ _ _ => ?_
    exact (keeps_given (Arguments.catchable_limit _)).bind fun count e₂ _ _ =>
      (keeps_execute _ _ _ _).single
  | openRows =>
    refine (keeps_given (Arguments.catchable_text _)).bind fun sql e₁ _ _ => ?_
    exact (keeps_openPortal _ _ _ _).bind fun portal e₂ _ _ => (keeps_newIterator portal).single
  | findCursor =>
    exact (keeps_given (Arguments.catchable_text _)).bind fun name e₁ _ _ =>
      (keeps_findCursor name).single
  | prepare =>
    refine (keeps_given (Arguments.catchable_text _)).bind fun sql e₁ _ _ => ?_
    exact (keeps_given (Arguments.catchable_optional Arguments.catchable_table _)).bind
      fun types e₂ _ _ => (keeps_newPlan sql types).single
  | nextRow id => exact (keeps_nextRow id).single
  | readField =>
    dsimp only
    split
    · exact (keeps_readField _ _).single
    · exact keeps_throw rfl
  | writeField =>
    dsimp only
    split
    · exact (keeps_writeField _ _ _).silent
    · exact keeps_throw rfl
  | countRows =>
    dsimp only
    split
    · exact (keeps_countRows _).bind fun n e₁ _ _ =>
        keeps_pure (List.forall_mem_singleton.mpr (Engine.innate_admits e₁ _ rfl))
    · exact keeps_throw rfl
  | objectText =>
    dsimp only
    split
    · exact (keeps_objectText _).bind fun text e₁ _ _ =>
        keeps_pure (List.forall_mem_singleton.mpr (Engine.innate_admits e₁ _ rfl))
    · exact keeps_throw rfl
  | planExecute | planCursor | planRows | planSave | planIsSaved => exact keeps_servePlan _ args
  | cursorFetch | cursorMove | cursorFetchAt | cursorMoveTo | cursorClose =>
    exact keeps_serveCursor _ args

end Serving

/-! ### Runs -/

namespace Engine

variable {e e' : Engine} {stack : List FrameId} {c : Control} {done : Ending × Engine}

theorem Ran.after (hfollows : e.Follows e') (hdone : e'.Ran stack done) : e.Ran stack done :=
  ⟨hdone.1, hfollows.trans hdone.2.1, hdone.2.2⟩

/-- The heap of a turn comes back to the engine, and the turn is counted. -/
theorem Sound.turn (hs : e.Sound stack) {heap : Script.Heap} (hh : heap.Conforms e.Admits)
    (left : Nat) : ({ e with heap }.countTurn left).Sound stack :=
  ⟨hs.arena, hs.shared, hh.toHolds, hs.functions, hs.host, hs.registered⟩

theorem follows_turn (e : Engine) (heap : Script.Heap) (left : Nat) :
    e.Follows ({ e with heap }.countTurn left) :=
  Follows.ofSame rfl rfl rfl rfl rfl

section Controls

variable {Q : Value → Prop}

/-- A function that a service calls starts with the values that it is given. -/
theorem holds_nestedControl (own : Innate Q) (c : Control) (position : Nat) {f : Value}
    {args : List Value} (hf : Q f) (hargs : AllOf Q args) :
    (nestedControl c position f args).Holds Q := by
  refine Script.Control.Waits.nest own ⟨?_, ?_⟩ _ hf hargs
  · exact fun x hx => absurd hx List.not_mem_nil
  · exact fun r hr => absurd hr List.not_mem_nil

/-- A look at the time raises at most one failure. -/
theorem holds_look (hlimit : Q (.failure timeLimit)) (hc : c.Holds Q) : (e.look c).1.Holds Q := by
  unfold look
  simp only
  split
  · exact ⟨⟨hc.callers, hc.resumptions⟩, hlimit⟩
  · exact hc

end Controls

theorem look_spec (hs : e.Sound stack) (hc : c.Holds e.Admits) :
    (e.look c).2.Sound stack ∧ e.Follows (e.look c).2 ∧ (e.look c).1.Holds (e.look c).2.Admits :=
  ⟨⟨hs.arena, hs.shared, hs.heap, hs.functions, hs.host, hs.registered⟩,
    Follows.ofSame rfl rfl rfl rfl rfl, holds_look (admits_failure rfl) hc⟩

/-- A run keeps the invariant. -/
theorem run_keeps (fuel : Nat) (hs : e.Sound stack) (hc : c.Holds e.Admits) :
    e.Ran stack (run fuel c e) := by
  -- on the turns; the stack is any, for functions that run inside of a protected call
  induction fuel generalizing e stack c with
  | zero => exact ⟨hs, Follows.refl e, admits_failure rfl⟩
  | succ fuel ih =>
    have hturn := Script.Machine.advance_holds (innate_admits e) stepsAtOnce e.instructionsDue
      (hs.heap.conforms e.admits_table) hc
    unfold run
    simp only
    generalize Script.Machine.advance stepsAtOnce e.instructionsDue e.heap c = turn at hturn ⊢
    obtain ⟨left, step⟩ := turn
    cases step with
    | next heap c' =>
      obtain ⟨hh, hc'⟩ := hturn
      have hs₁ := hs.turn hh left
      have h₁ := e.follows_turn heap left
      simp only
      split
      · obtain ⟨hs₂, h₂, hc₂⟩ := look_spec hs₁ hc'
        exact (ih hs₂ hc₂).after (h₁.trans h₂)
      · exact (ih hs₁ hc').after h₁
    | ended ending heap =>
      obtain ⟨hending, hh⟩ := hturn
      exact ⟨hs.turn hh left, e.follows_turn heap left, hending⟩
    | request s args position heap c' =>
      obtain ⟨-, hargs, hh, hc'⟩ := hturn
      have h₁ := e.follows_turn heap left
      -- the functions that the service calls have fewer turns
      have hcall : Caller.Keeps fun f args e => run fuel (nestedControl c' position f args) e :=
        fun stack e f args hs hf hargs =>
          ih hs (holds_nestedControl (innate_admits e) c' position hf hargs)
      have hgiven : AllOf ({ e with heap }.countTurn left).Admits args := hargs
      have hserved := (Serving.keeps_serve hcall s hgiven).spec (hs.turn hh left)
      simp only
      generalize Serving.serve _ s args _ = served at hserved ⊢
      obtain ⟨r, e₂⟩ := served
      obtain ⟨hs₂, h₂, hanswer⟩ := hserved
      have hc₂ : c'.Waits e₂.Admits := hc'.mono fun v hv => h₂.admits hv
      cases r with
      | ok values =>
        have hfocus : Script.Focus.Holds e₂.Admits (.give values) := hanswer
        exact (ih hs₂ (hc₂.withFocus hfocus)).after (h₁.trans h₂)
      | error f =>
        have hfocus : Script.Focus.Holds e₂.Admits (.raise (.failure f)) := hanswer
        exact (ih hs₂ (hc₂.withFocus hfocus)).after (h₁.trans h₂)

end Engine

end StoredRoutine
