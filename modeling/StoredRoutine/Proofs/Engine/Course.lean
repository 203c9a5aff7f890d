import StoredRoutine.Proofs.Engine.Isolation
import StoredRoutine.Proofs.Engine.Moves
import StoredRoutine.Proofs.Engine.Reachable

/-!
# `StoredRoutine.Proofs.Engine.Course`: from one moment of an engine to another

The invariants of runs compare the start of a call with its end. What scripts hold lives longer:
an iterator may be asked for rows inside of protected calls and outside of them, in one call of a
routine and in the next one, and frames start and end meanwhile. `Engine.Course` leads from any
moment in the work of an engine to any later one, also inside of calls that are still going on. It
keeps account of the frames that are open in the end, and of those that have ended, in the order in
which they did.

Engines stay sound on their course (`Course.sound`), and the run of a script is a part of a course
(`Course.run`). A relation between objects that all changes obey (`Object.Law`) holds between the
objects of any two moments of a course (`Course.evolves`). So iterators are never taken away: the
handle of one stays until it has no rows left, and then it has none for good (`Course.retains`).
-/

set_option autoImplicit false

namespace StoredRoutine

open Script (AllOf Control ObjectId Service Value)

/-! ### What becomes of iterators -/

/-- An iterator that has no rows left. -/
def RowIterator.Ended (i : RowIterator) : Prop := i.done = true ∧ i.handle = none

/-- What an iterator may become: its handle stays until it ends. -/
structure RowIterator.Precedes (i j : RowIterator) : Prop where
  handle : ∀ h, i.handle = some h → j.handle = some h ∨ j.Ended
  ended : i.Ended → j.Ended

theorem RowIterator.Precedes.refl (i : RowIterator) : i.Precedes i := ⟨fun _ h => .inl h, id⟩

theorem RowIterator.Precedes.trans {i j k : RowIterator} (h : i.Precedes j) (h' : j.Precedes k) :
    i.Precedes k where
  handle x hx := (h.handle x hx).elim (h'.handle x) fun hended => .inr (h'.ended hended)
  ended hended := h'.ended (h.ended hended)

/-- The cursor does not matter to what is left of an iterator. -/
theorem RowIterator.precedes_withCursor (i : RowIterator) (cursor : Cursor) :
    i.Precedes { i with cursor } := ⟨fun _ h => .inl h, id⟩

/-- Whatever becomes of an iterator is an iterator. -/
theorem Object.Change.precedes {i : RowIterator} {o : Object} (h : (Object.iterator i).Change o) :
    ∃ j, o = .iterator j ∧ i.Precedes j := by
  cases h with
  | same => exact ⟨i, rfl, .refl i⟩
  | popped => exact ⟨_, rfl, fun _ h => .inl h, id⟩
  | fetched hdone hhandle =>
    -- a handle that was there is used again, and an iterator at its end does not fetch
    refine ⟨_, rfl, fun x hx => ?_, fun hended => ?_⟩
    · rcases hhandle with hnone | hsome
      · cases hnone.symm.trans hx
      · exact .inl (hsome.symm.trans hx)
    · cases hdone.symm.trans hended.1
  | finished => exact ⟨_, rfl, fun _ _ => .inr ⟨rfl, rfl⟩, fun _ => ⟨rfl, rfl⟩⟩

/-- A relation between an object and what becomes of it, whatever services and the ends of
transactions do. -/
structure Object.Law (R : Object → Object → Prop) : Prop where
  refl : ∀ o, R o o
  trans : ∀ {o p q}, R o p → R p q → R o q
  change : ∀ {o p}, o.Change p → R o p
  /-- The cursor of the object is closed. -/
  shut : ∀ o, R o (o.mapCursor .shut)
  /-- The cursor of the object counts as closed from the end of the transaction on. -/
  closed : ∀ o, R o (o.mapCursor fun c => { c with closed := true })

namespace Engine

variable {e e' e'' start : Engine} {stack outer : List FrameId}
  {ended : List (FrameId × FrameExit)} {R : Object → Object → Prop}

/-! ### What becomes of objects -/

/-- All objects of an engine are still there, and each is related to what it was. -/
def Evolves (R : Object → Object → Prop) (e e' : Engine) : Prop :=
  ∀ id o, e.object? id = some o → ∃ o', e'.object? id = some o' ∧ R o o'

theorem Evolves.trans (hR : Object.Law R) (h : e.Evolves R e') (h' : e'.Evolves R e'') :
    e.Evolves R e'' := by
  intro id o ho
  obtain ⟨p, hp, hop⟩ := h id o ho
  obtain ⟨q, hq, hpq⟩ := h' id p hp
  exact ⟨q, hq, hR.trans hop hpq⟩

theorem Evolves.ofSame (hR : Object.Law R) (hobjects : e'.objects = e.objects) :
    e.Evolves R e' := by
  intro id o ho
  refine ⟨o, ?_, hR.refl o⟩
  unfold object?
  rw [hobjects]
  exact ho

theorem Evolves.ofPush (hR : Object.Law R) {added : Object}
    (hobjects : e'.objects = e.objects.push added) : e.Evolves R e' := by
  intro id o ho
  refine ⟨o, ?_, hR.refl o⟩
  unfold object? at ho ⊢
  obtain ⟨hlt, -⟩ := Array.getElem?_eq_some_iff.mp ho
  rw [hobjects, Array.getElem?_push_lt hlt, ← Array.getElem?_eq_getElem hlt, ho]

theorem Evolves.ofModify (hR : Object.Law R) {id : ObjectId} {f : Object → Object}
    (hobjects : e'.objects = e.objects.modify id.index f)
    (hf : ∀ o, e.object? id = some o → R o (f o)) : e.Evolves R e' := by
  intro id' o ho
  -- only one object has changed
  unfold object? at ho hf ⊢
  rw [hobjects, Array.getElem?_modify, ho]
  split
  next heq => exact ⟨f o, rfl, hf o (heq ▸ ho)⟩
  · exact ⟨o, rfl, hR.refl o⟩

theorem Move.evolves (hR : Object.Law R) (h : e.Move e') : e.Evolves R e' := by
  cases h with
  | still hobjects => exact .ofSame hR hobjects
  | made o _ hobjects => exact .ofPush hR hobjects
  | attached o name _ hobjects => exact .ofPush hR hobjects
  | changed id o f ho hf hobjects =>
    refine .ofModify hR hobjects fun p hp => ?_
    cases ho.symm.trans hp
    exact hR.change hf
  | closed id o c _ _ _ hobjects => exact .ofModify hR hobjects fun p _ => hR.shut p

theorem Moves.evolves (hR : Object.Law R) (h : e.Moves e') : e.Evolves R e' := by
  induction h with
  | refl => exact .ofSame hR rfl
  | tail _ hmove ih => exact ih.trans hR (hmove.evolves hR)

/-- The end of a transaction closes cursors, and leaves objects what they are. -/
theorem evolves_foldl_clean (hR : Object.Law R) (entries : List (CleanupId × CleanupAction))
    (e : Engine) : e.Evolves R (entries.foldl (fun e entry => e.clean entry.2) e) := by
  induction entries generalizing e with
  | nil => exact .ofSame hR rfl
  | cons entry rest ih =>
    have hclean : e.Evolves R (e.clean entry.2) := by
      cases entry.2 with
      | closeCursor id => exact .ofModify hR rfl fun o _ => hR.closed o
      | dropExecution id => exact .ofSame hR rfl
    exact hclean.trans hR (ih _)

theorem evolves_onTransaction (hR : Object.Law R) (e : Engine) (event : TransactionEvent) :
    e.Evolves R (e.onTransaction event).2 := by
  unfold onTransaction
  split
  · have hemptied : e.Evolves R { e with cleanups := { e.cleanups with entries := [] } } :=
      .ofSame hR rfl
    exact hemptied.trans hR (evolves_foldl_clean hR _ _)
  · exact .ofSame hR rfl

theorem restores_onTransaction (hs : e.Sound stack) (event : TransactionEvent) :
    e.Restores (e.onTransaction event).2 := by
  unfold onTransaction
  split
  · exact (drain_spec hs).2.1
  · exact .refl e

/-! ### Courses -/

/-- What an engine can become from one moment in its work on, when the frames `outer` are open: the
engine at a later moment, the frames that are open then, and those that have ended meanwhile, the
first one first. -/
inductive Course (start : Engine) (outer : List FrameId) :
    Engine → List FrameId → List (FrameId × FrameExit) → Prop where
  | refl : Course start outer start outer []
  /-- Something happens to neither frames, layouts nor objects: a script takes a step, or the host
  does something. -/
  | aside {e e' : Engine} {stack : List FrameId} {ended : List (FrameId × FrameExit)}
    (h : Course start outer e stack ended) (hs : e'.Sound stack) (harena : e'.arena = e.arena)
    (hobjects : e'.objects = e.objects) : Course start outer e' stack ended
  /-- A service answers. The functions that it calls are run on top of a control. -/
  | serve {e : Engine} {stack : List FrameId} {ended : List (FrameId × FrameExit)}
    {args : List Value} (h : Course start outer e stack ended) (hargs : AllOf e.Admits args)
    (fuel : Nat) (c : Control) (position : Nat) (s : Service) :
    Course start outer (Serving.serve (nestedCaller fuel c position) s args e).2 stack ended
  | value {e : Engine} {stack : List FrameId} {ended : List (FrameId × FrameExit)}
    (h : Course start outer e stack ended) (v : ScriptValue) :
    Course start outer (Serving.toValue v e).2 stack ended
  | publish {e : Engine} {stack : List FrameId} {ended : List (FrameId × FrameExit)}
    (h : Course start outer e stack ended) (t : TriggerEvent) :
    Course start outer (Serving.publishEvent t e).2 stack ended
  | event {e : Engine} {stack : List FrameId} {ended : List (FrameId × FrameExit)}
    (h : Course start outer e stack ended) (event : TransactionEvent) :
    Course start outer (e.onTransaction event).2 stack ended
  /-- A frame starts, for a protected call or for a routine. -/
  | enter {e : Engine} {stack : List FrameId} {ended : List (FrameId × FrameExit)}
    (h : Course start outer e stack ended) :
    Course start outer e.pushFrame.2 (e.pushFrame.1 :: stack) ended
  | leave {e : Engine} {frame : FrameId} {stack : List FrameId}
    {ended : List (FrameId × FrameExit)} (h : Course start outer e (frame :: stack) ended)
    (exit : FrameExit) :
    Course start outer (e.popFrame frame exit).2 stack (ended ++ [(frame, exit)])

/-- What a service does is sound, and follows the engine. -/
theorem serve_spec (hs : e.Sound stack) {args : List Value} (hargs : AllOf e.Admits args)
    (fuel : Nat) (c : Control) (position : Nat) (s : Service) :
    (Serving.serve (nestedCaller fuel c position) s args e).2.Sound stack ∧
      e.Follows (Serving.serve (nestedCaller fuel c position) s args e).2 := by
  have hserved := (Serving.keeps_serve (nestedCaller_keeps fuel c position) s hargs).spec hs
  exact ⟨hserved.1, hserved.2.1⟩

/-- The frame on top of the stack ends. -/
theorem Sound.leave {frame : FrameId} (hs : e.Sound (frame :: stack)) (exit : FrameExit) :
    (e.popFrame frame exit).2.Sound stack := by
  obtain ⟨arena, hpop, hsound⟩ := hs.arena.popFrame exit
  rw [popFrame_eq hpop]
  exact hs.withWork hsound hs.host

theorem Course.sound (h : Course start outer e stack ended) (hs : start.Sound outer) :
    e.Sound stack := by
  induction h with
  | refl => exact hs
  | aside _ hs' => exact hs'
  | serve _ hargs fuel c position s ih => exact (serve_spec ih hargs fuel c position s).1
  | value _ v ih => exact ((Serving.keeps_toValue _ v).spec ih).1
  | publish _ t ih => exact ((Serving.keeps_publishEvent t).spec ih).1
  | event _ event ih => exact onTransaction_sound ih event
  | enter _ ih => exact ih.withWork ih.arena.pushFrame ih.host
  | leave _ exit ih => exact ih.leave exit

instance (fuel : Nat) (c : Control) (position : Nat) :
    (nestedCaller fuel c position).Moving := ⟨fun _ _ e => moves_run fuel _ e⟩

/-- What is related by a law is so all along a course. -/
theorem Course.evolves (hR : Object.Law R) (h : Course start outer e stack ended) :
    start.Evolves R e := by
  induction h with
  | refl => exact .ofSame hR rfl
  | aside _ _ _ hobjects ih => exact ih.trans hR (.ofSame hR hobjects)
  | serve _ _ fuel c position s ih => exact ih.trans hR ((Serving.Moving.moves _).evolves hR)
  | value _ v ih => exact ih.trans hR ((Serving.Moving.moves _).evolves hR)
  | publish _ t ih => exact ih.trans hR ((Serving.Moving.moves _).evolves hR)
  | event _ event ih => exact ih.trans hR (evolves_onTransaction hR _ event)
  | enter _ ih => exact ih.trans hR (.ofSame hR rfl)
  | leave _ exit ih =>
    refine ih.trans hR (.ofSame hR ?_)
    unfold popFrame
    split <;> rfl

/-! ### Iterators -/

/-- The iterators of an engine are still there. -/
def Retains (e e' : Engine) : Prop :=
  ∀ id i, e.object? id = some (.iterator i) →
    ∃ j, e'.object? id = some (.iterator j) ∧ i.Precedes j

/-- Iterators become iterators that they precede. -/
theorem law_precedes :
    Object.Law fun o o' => ∀ i, o = .iterator i → ∃ j, o' = .iterator j ∧ i.Precedes j where
  refl o i ho := ⟨i, ho, .refl i⟩
  trans h h' i ho := by
    obtain ⟨j, hj, hprecedes⟩ := h i ho
    obtain ⟨k, hk, hprecedes'⟩ := h' j hj
    exact ⟨k, hk, hprecedes.trans hprecedes'⟩
  change h i ho := (ho ▸ h).precedes
  shut o i ho := by
    subst ho
    exact ⟨_, rfl, i.precedes_withCursor _⟩
  closed o i ho := by
    subst ho
    exact ⟨_, rfl, i.precedes_withCursor _⟩

theorem Retains.ofEvolves (h : e.Evolves
    (fun o o' => ∀ i, o = .iterator i → ∃ j, o' = .iterator j ∧ i.Precedes j) e') :
    e.Retains e' := by
  intro id i ho
  obtain ⟨o', ho', hprecedes⟩ := h id _ ho
  obtain ⟨j, rfl, hj⟩ := hprecedes i rfl
  exact ⟨j, ho', hj⟩

theorem Retains.ofSame (hobjects : e'.objects = e.objects) : e.Retains e' :=
  .ofEvolves (.ofSame law_precedes hobjects)

theorem Moves.retains (h : e.Moves e') : e.Retains e' := .ofEvolves (h.evolves law_precedes)

theorem retains_onTransaction (e : Engine) (event : TransactionEvent) :
    e.Retains (e.onTransaction event).2 := .ofEvolves (evolves_onTransaction law_precedes e event)

/-- Iterators are never taken away. -/
theorem Course.retains (h : Course start outer e stack ended) : start.Retains e :=
  .ofEvolves (h.evolves law_precedes)

/-- The run of a script is a part of a course. -/
theorem Course.run (h : Course start outer e stack ended) (hs : e.Sound stack) (fuel : Nat)
    {c : Control} (hc : c.Holds e.Admits) : Course start outer (run fuel c e).2 stack ended := by
  -- on the turns; the steps of a script are aside, and each turn may end with a service
  induction fuel generalizing e c with
  | zero => exact h
  | succ fuel ih =>
    have hturn := Script.Machine.advance_holds (innate_admits e) stepsAtOnce e.instructionsDue
      (hs.heap.conforms e.admits_table) hc
    unfold Engine.run
    simp only
    generalize Script.Machine.advance stepsAtOnce _ _ c = turn at hturn ⊢
    obtain ⟨left, step⟩ := turn
    cases step with
    | next heap c' =>
      obtain ⟨hh, hc'⟩ := hturn
      have hs₁ := hs.turn hh left
      simp only
      split
      · obtain ⟨hs₂, -, hc₂⟩ := look_spec hs₁ hc'
        exact ih (h.aside hs₂ rfl rfl) hs₂ hc₂
      · exact ih (h.aside hs₁ rfl rfl) hs₁ hc'
    | ended ending heap => exact h.aside (hs.turn hturn.2 left) rfl rfl
    | request s args position heap c' =>
      obtain ⟨-, hargs, hh, hc'⟩ := hturn
      have hs₁ := hs.turn hh left
      have hgiven : AllOf ({ e with heap }.countTurn left).Admits args := hargs
      have hserved := (h.aside hs₁ rfl rfl).serve hgiven fuel c' position s
      have hspec := (Serving.keeps_serve (nestedCaller_keeps fuel c' position) s hgiven).spec hs₁
      have hcall : (fun f args e => Engine.run fuel (nestedControl c' position f args) e) =
          nestedCaller fuel c' position := rfl
      simp only [hcall]
      generalize Serving.serve _ s args _ = served at hserved hspec ⊢
      obtain ⟨r, e₂⟩ := served
      obtain ⟨hs₂, h₂, hanswer⟩ := hspec
      have hc₂ : c'.Waits e₂.Admits := hc'.mono fun v hv => h₂.admits hv
      cases r with
      | ok values =>
        have hfocus : Script.Focus.Holds e₂.Admits (.give values) := hanswer
        exact ih hserved hs₂ (hc₂.withFocus hfocus)
      | error f =>
        have hfocus : Script.Focus.Holds e₂.Admits (.raise (.failure f)) := hanswer
        exact ih hserved hs₂ (hc₂.withFocus hfocus)

end Engine

end StoredRoutine
