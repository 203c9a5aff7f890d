import StoredRoutine.Engine.Run
import StoredRoutine.Proofs.Engine.Registry
import StoredRoutine.Proofs.Host.Savepoints
import StoredRoutine.Proofs.Lifetime.Follows
import StoredRoutine.Proofs.Script.Step

/-!
# `StoredRoutine.Proofs.Engine.Sound`: the invariant of an engine, and what keeps it

`Engine.Sound e stack` holds of an engine whenever a script runs or none does. The arena is sound,
where the references are those of the tuples and objects of the engine (`Engine.held`). An
iterator shares the handle of its rows with a tuple, so a handle does not go away with the
iterator. A script can have a fatal failure in its hands only when the engine is poisoned
(`Engine.Admits`): such a failure comes from a rollback that failed, and nowhere else. And the
registry has one entry for each execution (`Engine.Registered`).

`Engine.Restores e e'` says what a call from the host leaves of an engine, whatever the script does:
frames and savepoints are back where they were, unless the engine is poisoned, in which case
savepoints may be left over. `Engine.Follows e e'` says this of a part of a run, and that executions
are left alone: scripts have no way to reach them.

`Keeps stack e x R` speaks of one computation in one engine. If the engine is sound, the one after
the computation is sound for the same stack and follows it; the answer has the property `R`
there; and the failure, if there is one, is admitted. So the frames and savepoints that `x`
starts it ends, too. The lemmas go by how computations are put together. `Keeps.bind` hands on that
the engine in the middle follows the first one, and with it everything that stays true along the
way.
-/

set_option autoImplicit false

namespace StoredRoutine

open Script (AllOf Heap Innate Value)

/-! ### References -/

namespace Object

/-- The references of an object to handles. -/
def handles : Object → List HandleId
  | .rows set => [set.handle]
  | .iterator i => i.handle.toList
  | _ => []

/-- The references of an iterator, which gives them up when it ends. -/
def passing : Object → List HandleId
  | .iterator i => i.handle.toList
  | _ => []

end Object

namespace Engine

variable {e e' e'' : Engine} {stack : List FrameId}

/-- The references of tuples. -/
def tupleHandles (e : Engine) : List HandleId := e.tuples.toList.map (·.handle)

/-- The references of objects. -/
def objectHandles (e : Engine) : List HandleId := e.objects.toList.flatMap Object.handles

/-- All references. -/
def held (e : Engine) : List HandleId := e.tupleHandles ++ e.objectHandles

/-! ### Values that a script can have -/

/-- A script can have the value: a fatal failure only in an engine that is poisoned. -/
def Admits (e : Engine) (v : Value) : Prop :=
  ∀ f, v = .failure f → f.isFatal = true → e.poisoned = true

/-- All values that scripts make on their own are admitted. -/
theorem innate_admits (e : Engine) : Innate e.Admits := by
  intro v hv f heq
  rw [heq] at hv
  cases hv

theorem admits_failure {f : Failure} (hf : f.isFatal = false) : e.Admits (.failure f) := by
  intro g heq hfatal
  cases heq
  rw [hf] at hfatal
  cases hfatal

/-- A failure that is admitted in an engine that is not poisoned can be caught. -/
theorem Admits.catchable {f : Failure} (h : e.Admits (.failure f)) (hp : e.poisoned = false) :
    f.isFatal = false := by
  cases hf : f.isFatal with
  | false => rfl
  | true =>
    rw [h f rfl hf] at hp
    cases hp

theorem admits_object (kind : Script.ObjectKind) (id : Script.ObjectId) :
    e.Admits (.object kind id) := by
  intro f heq
  cases heq

/-- All tables are admitted. -/
theorem admits_table (e : Engine) (id : Script.TableId) : e.Admits (.table id) := by
  intro f heq
  cases heq

theorem admits_of_isFunction {v : Value} (hv : v.isFunction = true) : e.Admits v := by
  intro f heq
  rw [heq] at hv
  cases hv

/-- The functions that the engine keeps for calls from the host. -/
def functions (e : Engine) : List Value := e.setBody :: e.routines.entries.map (·.2.function)

/-! ### The invariant -/

/-- An engine with the given stack of frames. -/
structure Sound (e : Engine) (stack : List FrameId) : Prop where
  arena : e.arena.Sound stack e.held
  shared : ∀ o ∈ e.objects, ∀ h ∈ o.passing, h ∈ e.tupleHandles
  heap : e.heap.Holds e.Admits
  functions : AllOf e.Admits e.functions
  host : e.host.Willing
  registered : Registered e.cleanups e.objects e.executions e.started

/-- The engine after something that ends the frames and savepoints that it starts. -/
structure Restores (e e' : Engine) : Prop where
  arena : e.arena.Follows e'.arena
  host : e.host.Follows e'.host
  poisoned : e.poisoned = true → e'.poisoned = true
  balanced : e'.poisoned = false → e'.host.savepoints = e.host.savepoints
  /-- A rollback that fails poisons the engine, and nothing else does. -/
  faulted : e.poisoned = false → (e'.poisoned = true ↔ e.host.RollbackFailed e'.host)

/-- The engine after a part of a run that does not end the current frame. -/
structure Follows (e e' : Engine) : Prop extends Restores e e' where
  executions : e'.executions = e.executions
  started : e'.started = e.started

theorem Restores.refl (e : Engine) : e.Restores e where
  arena := Arena.Follows.refl e.arena
  host := (Host.Steady.refl e.host).follows
  poisoned h := h
  balanced _ := rfl
  faulted h := by
    have hsame := Host.not_rollbackFailed (rfl : e.host.failRollback = e.host.failRollback)
    simp [h, hsame]

theorem Restores.trans (h₁ : e.Restores e') (h₂ : e'.Restores e'') : e.Restores e'' where
  arena := h₁.arena.trans h₂.arena
  host := h₁.host.trans h₂.host
  poisoned h := h₂.poisoned (h₁.poisoned h)
  balanced h := by
    -- an engine that is not poisoned in the end was not poisoned in between
    have hmid : e'.poisoned = false := by
      cases hp : e'.poisoned with
      | false => rfl
      | true => rw [h₂.poisoned hp] at h; cases h
    exact (h₂.balanced h).trans (h₁.balanced hmid)
  faulted h := by
    rw [Host.rollbackFailed_trans h₁.host.failRollback h₂.host.failRollback, ← h₁.faulted h]
    cases hmid : e'.poisoned with
    | false => simp [h₂.faulted hmid]
    | true => simp [h₂.poisoned hmid]

theorem Restores.poisoned_iff (h : e.Restores e') :
    e'.poisoned = true ↔ e.poisoned = true ∨ e.host.RollbackFailed e'.host := by
  cases hp : e.poisoned with
  | true => simp [h.poisoned hp]
  | false => simp [h.faulted hp]

/-- An engine whose host was not told to fail stays usable. -/
theorem Restores.usable (h : e.Restores e') (hp : e.poisoned = false)
    (hr : e.host.failRollback = false) : e'.poisoned = false := by
  refine Bool.eq_false_iff.mpr fun hp' => ?_
  have hfailed := (h.faulted hp).mp hp'
  cases hr.symm.trans hfailed.1

theorem Follows.refl (e : Engine) : e.Follows e := ⟨Restores.refl e, rfl, rfl⟩

theorem Follows.trans (h₁ : e.Follows e') (h₂ : e'.Follows e'') : e.Follows e'' :=
  ⟨h₁.toRestores.trans h₂.toRestores, h₂.executions.trans h₁.executions,
    h₂.started.trans h₁.started⟩

/-- A value that is admitted stays so. -/
theorem Restores.admits (h : e.Restores e') {v : Value} (hv : e.Admits v) : e'.Admits v :=
  fun f heq hfatal => h.poisoned (hv f heq hfatal)

/-- Something that does not touch layouts, poison or savepoints. -/
theorem Restores.ofSteady (harena : e'.arena = e.arena) (hhost : e.host.Steady e'.host)
    (hp : e'.poisoned = e.poisoned) : e.Restores e' where
  arena := harena ▸ Arena.Follows.refl e.arena
  host := hhost.follows
  poisoned h := hp.trans h
  balanced _ := hhost.savepoints
  faulted h := by simp [hp, h, Host.not_rollbackFailed hhost.failRollback]

/-- A part of a run that does not touch layouts, poison or savepoints. -/
theorem Follows.ofSteady (harena : e'.arena = e.arena) (hhost : e.host.Steady e'.host)
    (hp : e'.poisoned = e.poisoned) (hx : e'.executions = e.executions)
    (hstarted : e'.started = e.started) : e.Follows e' :=
  ⟨Restores.ofSteady harena hhost hp, hx, hstarted⟩

/-- Something that touches neither layouts nor poison nor the host. -/
theorem Restores.ofSame (harena : e'.arena = e.arena) (hhost : e'.host = e.host)
    (hp : e'.poisoned = e.poisoned) : e.Restores e' :=
  Restores.ofSteady harena (hhost ▸ Host.Steady.refl e.host) hp

/-- A part of a run that touches neither layouts nor poison nor the host. -/
theorem Follows.ofSame (harena : e'.arena = e.arena) (hhost : e'.host = e.host)
    (hp : e'.poisoned = e.poisoned) (hx : e'.executions = e.executions)
    (hstarted : e'.started = e.started) : e.Follows e' :=
  ⟨Restores.ofSame harena hhost hp, hx, hstarted⟩

/-- A part of a run that changes layouts only. -/
theorem Follows.ofArena (harena : e.arena.Follows e'.arena) (hhost : e'.host = e.host)
    (hp : e'.poisoned = e.poisoned) (hx : e'.executions = e.executions)
    (hstarted : e'.started = e.started) : e.Follows e' where
  arena := harena
  host := hhost ▸ (Host.Steady.refl e.host).follows
  poisoned h := hp.trans h
  balanced _ := by rw [hhost]
  faulted h := by
    have hsame := Host.not_rollbackFailed (congrArg Host.failRollback hhost)
    simp [hp, h, hsame]
  executions := hx
  started := hstarted

/-! ### Changes of the invariant -/

/-- The references of a list of objects, before and after a change of one of them. -/
theorem perm_flatMap_modify {l : List Object} {i : Nat} {o : Object} (hi : l[i]? = some o)
    (f : Object → Object) (g : Object → List HandleId) :
    ∃ rest, (l.flatMap g).Perm (g o ++ rest) ∧
      ((l.modify i f).flatMap g).Perm (g (f o) ++ rest) := by
  induction l generalizing i with
  | nil => cases hi
  | cons p further ih =>
    cases i with
    | zero =>
      cases hi
      exact ⟨further.flatMap g, List.Perm.refl _, List.Perm.refl _⟩
    | succ i =>
      -- what is in front of the object goes to the others
      obtain ⟨rest, hbefore, hafter⟩ := ih hi
      refine ⟨g p ++ rest, ?_, ?_⟩
      · exact (hbefore.append_left (g p)).trans (List.perm_append_comm_assoc ..)
      · exact (hafter.append_left (g p)).trans (List.perm_append_comm_assoc ..)

theorem tupleHandles_push (e : Engine) (t : Tuple) :
    ({ e with tuples := e.tuples.push t } : Engine).tupleHandles =
      e.tupleHandles ++ [t.handle] := by
  unfold tupleHandles
  simp

theorem objectHandles_push (e : Engine) (o : Object) :
    ({ e with objects := e.objects.push o } : Engine).objectHandles =
      e.objectHandles ++ o.handles := by
  unfold objectHandles
  simp

/-- The heap of an engine takes any heap whose values are admitted. -/
theorem Sound.withHeap (h : e.Sound stack) {heap : Heap} (hh : heap.Holds e.Admits) :
    ({ e with heap } : Engine).Sound stack :=
  ⟨h.arena, h.shared, hh, h.functions, h.host, h.registered⟩

/-- A host after an operation that is steady. -/
theorem Sound.withHost (h : e.Sound stack) {host : Host} (hh : e.host.Steady host) :
    ({ e with host } : Engine).Sound stack :=
  ⟨h.arena, h.shared, h.heap, h.functions, hh.willing.mpr h.host, h.registered⟩

/-- An engine whose layouts are sound for another stack, with any host that is willing. -/
theorem Sound.withWork {stack' : List FrameId} (h : e.Sound stack) {arena : Arena} {host : Host}
    (ha : arena.Sound stack' e.held) (hw : host.Willing) :
    ({ e with arena, host } : Engine).Sound stack' :=
  ⟨ha, h.shared, h.heap, h.functions, hw, h.registered⟩

/-- A new tuple with a new reference to its handle. -/
theorem Sound.pushTuple (h : e.Sound stack) {arena : Arena} {t : Tuple}
    (ha : arena.Sound stack (t.handle :: e.held)) :
    ({ e with arena, tuples := e.tuples.push t } : Engine).Sound stack where
  arena := by
    refine ha.perm ?_
    show List.Perm _ (tupleHandles { e with arena, tuples := e.tuples.push t } ++ e.objectHandles)
    rw [show tupleHandles { e with arena, tuples := e.tuples.push t } = e.tupleHandles ++ [t.handle]
      from tupleHandles_push e t]
    rw [List.append_assoc, List.singleton_append]
    exact List.perm_middle.symm
  shared o ho handle hin := by
    show handle ∈ tupleHandles { e with tuples := e.tuples.push t }
    rw [tupleHandles_push]
    exact List.mem_append_left _ (h.shared o ho handle hin)
  heap := h.heap
  functions := h.functions
  host := h.host
  registered := h.registered

/-- A new object, with new references to its handles. -/
theorem Sound.pushObject (h : e.Sound stack) {arena : Arena} {o : Object}
    (ha : arena.Sound stack (o.handles ++ e.held)) (ho : o.passing = [])
    (hc : ∀ c ∈ o.cleanups, NoExecution e.cleanups c) :
    ({ e with arena, objects := e.objects.push o } : Engine).Sound stack where
  arena := by
    refine ha.perm ?_
    show List.Perm _ (e.tupleHandles ++ objectHandles { e with objects := e.objects.push o })
    rw [objectHandles_push, ← List.append_assoc]
    exact List.perm_append_comm
  shared p hp handle hin := by
    rcases Array.mem_push.mp hp with hp | rfl
    · exact h.shared p hp handle hin
    · rw [ho] at hin
      exact absurd hin List.not_mem_nil
  heap := h.heap
  functions := h.functions
  host := h.host
  registered := h.registered.pushObject hc

/-- The tuples of an engine may change, as long as their handles do not. -/
theorem Sound.withTuples (h : e.Sound stack) {tuples : Array Tuple}
    (heq : tuples.toList.map (·.handle) = e.tuples.toList.map (·.handle)) :
    ({ e with tuples } : Engine).Sound stack := by
  have htuples : tupleHandles { e with tuples } = e.tupleHandles := heq
  refine ⟨?_, ?_, h.heap, h.functions, h.host, h.registered⟩
  · show e.arena.Sound stack (tupleHandles { e with tuples } ++ e.objectHandles)
    rw [htuples]
    exact h.arena
  · intro o ho handle hin
    rw [htuples]
    exact h.shared o ho handle hin

theorem mem_modify {o : Object} {objects : Array Object} {i : Nat} {f : Object → Object}
    (ho : o ∈ objects.modify i f) :
    o ∈ objects ∨ ∃ p ∈ objects, objects[i]? = some p ∧ o = f p := by
  obtain ⟨j, hj⟩ := Array.mem_iff_getElem?.mp ho
  rw [Array.getElem?_modify] at hj
  split at hj
  next heq =>
    obtain ⟨p, hp, rfl⟩ := Option.map_eq_some_iff.mp hj
    exact .inr ⟨p, Array.mem_of_getElem? hp, heq ▸ hp, rfl⟩
  · exact .inl (Array.mem_of_getElem? hj)

/-- The references of the engine, with those of an object first. -/
theorem held_perm_of_object {id : Script.ObjectId} {o : Object} (ho : e.object? id = some o) :
    ∃ rest, e.held.Perm (o.handles ++ (e.tupleHandles ++ rest)) := by
  have hlist : e.objects.toList[id.index]? = some o := by
    rw [Array.getElem?_toList]
    exact ho
  obtain ⟨rest, hbefore, -⟩ := perm_flatMap_modify hlist (fun o => o) Object.handles
  exact ⟨rest, (hbefore.append_left e.tupleHandles).trans (List.perm_append_comm_assoc ..)⟩

/-- An object changes, and with its references the arena does. -/
theorem Sound.exchangeObject (h : e.Sound stack) {id : Script.ObjectId} {o : Object}
    {f : Object → Object} {arena : Arena} (ho : e.object? id = some o)
    (ha : ∀ rest, e.held.Perm (o.handles ++ rest) → arena.Sound stack ((f o).handles ++ rest))
    (hp : ∀ x ∈ (f o).passing, x ∈ e.tupleHandles) (hc : (f o).cleanups ⊆ o.cleanups) :
    ({ e with arena, objects := e.objects.modify id.index f } : Engine).Sound stack where
  arena := by
    have hlist : e.objects.toList[id.index]? = some o := by
      rw [Array.getElem?_toList]
      exact ho
    -- the references of the other objects are the same before and after
    obtain ⟨rest, hbefore, hafter⟩ := perm_flatMap_modify hlist f Object.handles
    have hheld : e.held.Perm (o.handles ++ (e.tupleHandles ++ rest)) :=
      (hbefore.append_left e.tupleHandles).trans (List.perm_append_comm_assoc ..)
    refine (ha (e.tupleHandles ++ rest) hheld).perm (List.Perm.symm ?_)
    show List.Perm (e.tupleHandles ++ (e.objects.modify id.index f).toList.flatMap _) _
    rw [Array.toList_modify]
    exact (hafter.append_left e.tupleHandles).trans (List.perm_append_comm_assoc ..)
  shared p hin handle hhandle := by
    rcases mem_modify hin with hin | ⟨q, -, hq, rfl⟩
    · exact h.shared p hin handle hhandle
    · cases ho.symm.trans hq
      exact hp handle hhandle
  heap := h.heap
  functions := h.functions
  host := h.host
  registered := h.registered.withObjects fun p hin c hcleanup => by
    rcases mem_modify hin with hin | ⟨q, -, hq, rfl⟩
    · exact h.registered.cursors p hin c hcleanup
    · cases ho.symm.trans hq
      exact h.registered.cursors o (Array.mem_of_getElem? ho) c (hc hcleanup)

/-- A change of an object that changes no reference and names no other entry of the registry. -/
def Harmless (f : Object → Object) (o : Object) : Prop :=
  (f o).handles = o.handles ∧ (f o).passing = o.passing ∧ (f o).cleanups ⊆ o.cleanups

/-- An object may change, as long as its references do not. -/
theorem Sound.modifyObject (h : e.Sound stack) (id : Script.ObjectId) {f : Object → Object}
    (hf : ∀ o, e.object? id = some o → Harmless f o) :
    (e.modifyObject id f).Sound stack := by
  cases ho : e.object? id with
  | none =>
    -- no object, no change
    have hsame : e.objects.modify id.index f = e.objects := by
      have hsize : e.objects.size ≤ id.index := Array.getElem?_eq_none_iff.mp ho
      exact Array.ext_getElem? fun j => by
        rw [Array.getElem?_modify]
        split
        next heq => rw [Array.getElem?_eq_none (by omega)]; rfl
        · rfl
    have heq : e.modifyObject id f = e := by
      unfold Engine.modifyObject
      rw [hsame]
    rw [heq]
    exact h
  | some o =>
    obtain ⟨hhandles, hpassing, hcleanups⟩ := hf o ho
    refine h.exchangeObject (f := f) ho (fun rest hrest => ?_) (fun x hx => ?_) hcleanups
    · rw [hhandles]
      exact h.arena.perm hrest
    · rw [hpassing] at hx
      exact h.shared o (Array.mem_of_getElem? ho) x hx

theorem mem_held_of_object {id : Script.ObjectId} {o : Object} (ho : e.object? id = some o)
    {handle : HandleId} (hin : handle ∈ o.handles) : handle ∈ e.held :=
  List.mem_append_right _ (List.mem_flatMap.mpr ⟨o, Array.mem_toList_iff.mpr
    (Array.mem_of_getElem? ho), hin⟩)

end Engine

end StoredRoutine

namespace StoredRoutine.Serving

open Script (AllOf Heap Value)

variable {α β : Type} {e e' : Engine} {stack : List FrameId} {R R' : Engine → α → Prop}
  {S : Engine → β → Prop}

/-- An answer has a property, and a failure is admitted. -/
def Answers (R : Engine → α → Prop) (e : Engine) : Outcome α → Prop
  | .ok a => R e a
  | .error f => e.Admits (.failure f)

/-- Nothing is said of an answer. -/
abbrev Any : Engine → α → Prop := fun _ _ => True

/-- A computation keeps what there is to keep. -/
def Keeps (stack : List FrameId) (e : Engine) (x : Serving α) (R : Engine → α → Prop) : Prop :=
  e.Sound stack → (x e).2.Sound stack ∧ e.Follows (x e).2 ∧ Answers R (x e).2 (x e).1

/-- What is kept, once the invariant is known. -/
theorem Keeps.spec {x : Serving α} (hx : Keeps stack e x R) (hs : e.Sound stack) :
    (x e).2.Sound stack ∧ e.Follows (x e).2 ∧ Answers R (x e).2 (x e).1 := hx hs

/-! ### Parts of computations -/

/-- The invariant of the engine may be used to show that it is kept. -/
theorem keeps_ofSound {x : Serving α} (hx : e.Sound stack → Keeps stack e x R) :
    Keeps stack e x R := fun hs => hx hs hs

/-- Several steps at once, of which only the last engine counts. -/
theorem keeps_steps {x y : Serving α} (last : Engine) (hrun : x e = y last)
    (hsteps : e.Sound stack → last.Sound stack ∧ e.Follows last) (hy : Keeps stack last y R) :
    Keeps stack e x R := by
  intro hs
  obtain ⟨hs', hfollows⟩ := hsteps hs
  have hdone := hy hs'
  rw [hrun]
  exact ⟨hdone.1, hfollows.trans hdone.2.1, hdone.2.2⟩

theorem keeps_pure {a : α} (ha : R e a) : Keeps stack e (pure a) R :=
  fun hs => ⟨hs, Engine.Follows.refl e, ha⟩

theorem keeps_raise {f : Failure} (hf : e.Admits (.failure f)) : Keeps stack e (throw f) R :=
  fun hs => ⟨hs, Engine.Follows.refl e, hf⟩

theorem keeps_throw {f : Failure} (hf : f.isFatal = false) : Keeps stack e (throw f) R :=
  keeps_raise (Engine.admits_failure hf)

/-- After a failure nothing happens. -/
theorem keeps_throw_bind {f : Failure} (hf : f.isFatal = false) (k : α → Serving β) :
    Keeps stack e (throw f >>= k) S :=
  fun hs => ⟨hs, Engine.Follows.refl e, Engine.admits_failure hf⟩

theorem Keeps.bind {x : Serving α} {k : α → Serving β} (hx : Keeps stack e x R)
    (hk : ∀ a e', e.Follows e' → R e' a → Keeps stack e' (k a) S) :
    Keeps stack e (x >>= k) S := by
  intro hs
  have hdone := hx hs
  rw [run_bind]
  generalize x e = done at hdone ⊢
  obtain ⟨r, e'⟩ := done
  obtain ⟨hs', hfollows, hanswer⟩ := hdone
  cases r with
  | error f => exact ⟨hs', hfollows, hanswer⟩
  | ok a =>
    obtain ⟨hs'', hfollows', hanswer'⟩ := hk a e' hfollows hanswer hs'
    exact ⟨hs'', hfollows.trans hfollows', hanswer'⟩

/-- What is said of an answer may be less. -/
theorem Keeps.mono {x : Serving α} (hx : Keeps stack e x R)
    (h : ∀ e' a, e.Follows e' → R e' a → R' e' a) : Keeps stack e x R' := by
  intro hs
  have hdone := hx hs
  generalize x e = done at hdone ⊢
  obtain ⟨r, e'⟩ := done
  obtain ⟨hs', hfollows, hanswer⟩ := hdone
  refine ⟨hs', hfollows, ?_⟩
  cases r with
  | error f => exact hanswer
  | ok a => exact h e' a hfollows hanswer

theorem Keeps.any {x : Serving α} (hx : Keeps stack e x R) : Keeps stack e x Any :=
  hx.mono fun _ _ _ _ => trivial

/-- A computation that starts by looking at the engine. -/
theorem keeps_get {k : Engine → Serving β} (hk : Keeps stack e (k e) S) :
    Keeps stack e (get >>= k) S := hk

theorem keeps_modify {f : Engine → Engine}
    (hf : e.Sound stack → (f e).Sound stack ∧ e.Follows (f e)) : Keeps stack e (modify f) Any :=
  fun hs => ⟨(hf hs).1, (hf hs).2, trivial⟩

theorem keeps_modifyGet {f : Engine → α × Engine}
    (hf : e.Sound stack → (f e).2.Sound stack ∧ e.Follows (f e).2 ∧ R (f e).2 (f e).1) :
    Keeps stack e (modifyGet f) R := hf

theorem keeps_ofOutcome {o : Outcome α} (ho : Outcome.Catchable o) (hR : ∀ a, o = .ok a → R e a) :
    Keeps stack e (ofOutcome o) R := by
  intro hs
  cases o with
  | error f => exact ⟨hs, Engine.Follows.refl e, Engine.admits_failure (ho f rfl)⟩
  | ok a => exact ⟨hs, Engine.Follows.refl e, hR a rfl⟩

/-- An operation of the host changes nothing of the engine beside the host. -/
theorem keeps_onHost {f : Host → Outcome α × Host} (hf : Host.Gentle f) :
    Keeps stack e (onHost f) fun e' _ => ∃ host, e' = { e with host } := by
  intro hs
  have hsteady := hf.steady e.host
  refine ⟨hs.withHost hsteady, Engine.Follows.ofSteady rfl hsteady rfl rfl rfl, ?_⟩
  show Answers _ _ (f e.host).1
  cases hr : (f e.host).1 with
  | error g => exact Engine.admits_failure (hf.catchable e.host g hr)
  | ok a => exact ⟨_, rfl⟩

theorem keeps_converting {f : Border → Resolving α}
    (hf : ∀ b : Border, b.catalog.Catchable → (f b).Catchable) :
    Keeps stack e (converting f) Any := by
  intro hs
  refine ⟨⟨hs.arena, hs.shared, hs.heap, hs.functions, hs.host, hs.registered⟩,
    Engine.Follows.ofSame rfl rfl rfl rfl rfl, ?_⟩
  have hcatch := hf e.border e.host.catchable_catalog e.types
  show Answers Any _ (f e.border e.types).1
  cases hr : (f e.border e.types).1 with
  | error g => exact Engine.admits_failure (hcatch g hr)
  | ok a => exact trivial

theorem Keeps.attempt {x : Serving α} (hx : Keeps stack e x R) :
    Keeps stack e (attempt x) fun e' r => Answers R e' r := hx

theorem Keeps.tryCatch {x : Serving α} {handler : Failure → Serving α} (hx : Keeps stack e x R)
    (hh : ∀ f e', e.Follows e' → Keeps stack e' (handler f) R) :
    Keeps stack e (tryCatch x handler) R := by
  intro hs
  have hdone := hx hs
  -- what was done before the failure is not undone
  rw [run_tryCatch]
  generalize x e = done at hdone ⊢
  obtain ⟨r, e'⟩ := done
  obtain ⟨hs', hfollows, hanswer⟩ := hdone
  cases r with
  | ok a => exact ⟨hs', hfollows, hanswer⟩
  | error f =>
    obtain ⟨hs'', hfollows', hanswer'⟩ := hh f e' hfollows hs'
    exact ⟨hs'', hfollows.trans hfollows', hanswer'⟩

/-- A list of computations, one after the other; what is said of an answer stays true. -/
theorem keeps_mapM {f : α → Serving β} {l : List α}
    (hstable : ∀ e₁ e₂ b, Engine.Follows e₁ e₂ → S e₁ b → S e₂ b)
    (hf : ∀ a ∈ l, ∀ e', e.Follows e' → Keeps stack e' (f a) S) :
    Keeps stack e (l.mapM f) fun e' bs => ∀ b ∈ bs, S e' b := by
  induction l generalizing e with
  | nil => exact keeps_pure fun b hb => absurd hb List.not_mem_nil
  | cons a rest ih =>
    rw [List.mapM_cons]
    refine (hf a List.mem_cons_self e (Engine.Follows.refl e)).bind fun b e₁ h₁ hb => ?_
    refine (ih fun a ha e₂ h₂ => hf a (List.mem_cons_of_mem _ ha) e₂ (h₁.trans h₂)).bind
      fun bs e₂ h₂ hbs => keeps_pure ?_
    exact List.forall_mem_cons.mpr ⟨hstable e₁ e₂ b h₂ hb, hbs⟩

end StoredRoutine.Serving
