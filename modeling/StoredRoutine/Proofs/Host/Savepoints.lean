import StoredRoutine.Host.Query
import StoredRoutine.Proofs.Marshal.Catchable

/-!
# `StoredRoutine.Proofs.Host.Savepoints`: what operations of the host leave alone

Statements and cursors are `Steady`: they leave the savepoints and the routines alone, and their
failures can be caught. Savepoints are started, released and rolled back one at a time, and only the
innermost one can be ended; their numbers come from a counter that never goes back. So what a part
of a run leaves of the savepoints is a list on top of those that were there, all of them with
numbers that the counter has given since (`Follows`).
-/

set_option autoImplicit false

namespace StoredRoutine

open Outcome (Catchable)

/-! ### Tables -/

namespace Tables

theorem catchable_table (name : String) (ts : Tables) : Catchable (table name ts) := by
  unfold table
  split
  · exact catchable_ok _
  · exact catchable_error rfl

theorem catchable_delete (name : String) (p : Row → Bool) (ts : Tables) :
    Catchable (delete name p ts) :=
  (catchable_table name ts).bind fun _ _ => catchable_ok _

/-- No action fails fatally. -/
theorem catchable_run (action : Action) (params : Row) (ts : Tables) :
    Catchable (run action params ts) := by
  cases action with
  | selectAll name => exact (catchable_table name ts).bind fun _ _ => catchable_ok _
  | insertParams name =>
    refine Outcome.Catchable.bind ?_ fun ts _ => catchable_ok _
    refine (catchable_table name ts).bind fun t _ => ?_
    split
    · exact catchable_ok _
    · exact catchable_error rfl
  | deleteAll name => exact (catchable_delete name _ ts).bind fun _ _ => catchable_ok _
  | deleteEqual name column => exact (catchable_delete name _ ts).bind fun _ _ => catchable_ok _
  | constant result => exact catchable_ok _
  | echoParams attributes => exact catchable_ok _

end Tables

namespace Host

variable {α : Type} {h h' h'' : Host}

/-- The lookups of the catalog of a host always answer. -/
theorem catchable_catalog (h : Host) : h.catalog.Catchable := fun _ => catchable_ok _

/-! ### Operations that leave the savepoints alone -/

/-- The host starts and releases savepoints whenever it is asked to. -/
def Willing (h : Host) : Prop := h.failBegin = false ∧ h.failRelease = false

/-- The host after an operation that has nothing to do with savepoints or routines. -/
structure Steady (h h' : Host) : Prop where
  savepoints : h'.savepoints = h.savepoints
  nextNumber : h.nextNumber ≤ h'.nextNumber
  inTransaction : h'.inTransaction = h.inTransaction
  failRollback : h'.failRollback = h.failRollback
  routines : h'.routines = h.routines
  nextTransaction : h'.nextTransaction = h.nextTransaction
  willing : h'.Willing ↔ h.Willing

theorem Steady.refl (h : Host) : h.Steady h := ⟨rfl, Nat.le_refl _, rfl, rfl, rfl, rfl, Iff.rfl⟩

theorem Steady.trans (h₁ : h.Steady h') (h₂ : h'.Steady h'') : h.Steady h'' where
  savepoints := h₂.savepoints.trans h₁.savepoints
  nextNumber := Nat.le_trans h₁.nextNumber h₂.nextNumber
  inTransaction := h₂.inTransaction.trans h₁.inTransaction
  failRollback := h₂.failRollback.trans h₁.failRollback
  routines := h₂.routines.trans h₁.routines
  nextTransaction := h₂.nextTransaction.trans h₁.nextTransaction
  willing := h₂.willing.trans h₁.willing

/-- An operation is steady, and its failure can be caught. -/
structure Gentle (f : Host → Outcome α × Host) : Prop where
  steady : ∀ h : Host, h.Steady (f h).2
  catchable : ∀ h : Host, Catchable (f h).1

theorem gentle_run (sql : String) (params : Row) (readOnly : Bool) :
    Gentle fun h => h.run sql params readOnly := by
  constructor
  all_goals
    intro h
    unfold run
    simp only
    split
  · exact ⟨rfl, Nat.le_refl _, rfl, rfl, rfl, rfl, Iff.rfl⟩
  · split
    · exact ⟨rfl, Nat.le_refl _, rfl, rfl, rfl, rfl, Iff.rfl⟩
    · split
      · exact ⟨rfl, Nat.le_refl _, rfl, rfl, rfl, rfl, Iff.rfl⟩
      · split <;> exact ⟨rfl, Nat.le_refl _, rfl, rfl, rfl, rfl, Iff.rfl⟩
  · exact catchable_error rfl
  · split
    · exact catchable_error rfl
    · split
      · exact catchable_error rfl
      · split
        next f heq => exact catchable_error (Tables.catchable_run _ _ _ f heq)
        · exact catchable_ok _

theorem gentle_execute (sql : String) (params : Row) (readOnly : Bool) (limit : Nat) :
    Gentle fun h => h.execute sql params readOnly limit where
  steady h := (gentle_run sql params readOnly).steady h
  catchable h := ((gentle_run sql params readOnly).catchable h).map _

theorem steady_setPortal (h : Host) (name : String) (p : Portal) : h.Steady (h.setPortal name p) :=
  ⟨rfl, Nat.le_refl _, rfl, rfl, rfl, rfl, Iff.rfl⟩

theorem steady_portalName (h : Host) (name : Option String) : h.Steady (h.portalName name).2 := by
  cases name with
  | none => exact ⟨rfl, Nat.le_succ _, rfl, rfl, rfl, rfl, Iff.rfl⟩
  | some name => exact Steady.refl h

theorem gentle_openCursor (sql : String) (params : Row) (name : Option String) (readOnly : Bool) :
    Gentle fun h => h.openCursor sql params name readOnly := by
  -- only the statement can fail in a way that has to be looked at
  have hrun := gentle_run sql params readOnly
  constructor
  · intro h
    have hsteady := hrun.steady h
    unfold openCursor
    split
    · exact Steady.refl h
    · split
      next f h₁ heq => rw [heq] at hsteady; exact hsteady
      next result h₁ heq =>
        rw [heq] at hsteady
        split
        · exact hsteady
        · exact hsteady.trans ((steady_portalName h₁ name).trans (steady_setPortal _ _ _))
  · intro h
    have hcatch := hrun.catchable h
    unfold openCursor
    split
    · exact catchable_error rfl
    · split
      next f h₁ heq =>
        rw [heq] at hcatch
        exact catchable_error (hcatch f rfl)
      · split
        · exact catchable_error rfl
        · exact catchable_ok _

theorem gentle_fetch (name : String) (direction : FetchDirection) (count : Int64) :
    Gentle fun h => h.fetch name direction count := by
  constructor
  all_goals
    intro h
    unfold fetch
    split
  · exact Steady.refl h
  · exact ⟨rfl, Nat.le_refl _, rfl, rfl, rfl, rfl, Iff.rfl⟩
  · exact catchable_error rfl
  · exact catchable_ok _

theorem gentle_moveCursor (name : String) (direction : FetchDirection) (count : Int64) :
    Gentle fun h => h.moveCursor name direction count where
  steady h := (gentle_fetch name direction count).steady h
  catchable h := ((gentle_fetch name direction count).catchable h).map _

theorem gentle_closeCursor (name : String) : Gentle fun h => h.closeCursor name := by
  constructor
  all_goals
    intro h
    unfold closeCursor
    split
  · exact ⟨rfl, Nat.le_refl _, rfl, rfl, rfl, rfl, Iff.rfl⟩
  · exact Steady.refl h
  · exact catchable_ok _
  · exact catchable_error rfl

/-! ### Savepoints -/

/-- The host after a part of a run: what is left of the savepoints lies on top of those that there
were, and was started since. -/
structure Follows (h h' : Host) : Prop where
  savepoints : ∃ left, h'.savepoints = left ++ h.savepoints ∧ ∀ s ∈ left, h.nextNumber ≤ s.id
  nextNumber : h.nextNumber ≤ h'.nextNumber
  inTransaction : h'.inTransaction = h.inTransaction
  failRollback : h.failRollback = false → h'.failRollback = false
  willing : h.Willing → h'.Willing

theorem Steady.follows (hs : h.Steady h') : h.Follows h' where
  savepoints := ⟨[], hs.savepoints, fun _ hin => absurd hin List.not_mem_nil⟩
  nextNumber := hs.nextNumber
  inTransaction := hs.inTransaction
  failRollback := hs.failRollback.trans
  willing := hs.willing.mpr

theorem Follows.trans (h₁ : h.Follows h') (h₂ : h'.Follows h'') : h.Follows h'' where
  savepoints := by
    obtain ⟨left₁, heq₁, hnew₁⟩ := h₁.savepoints
    obtain ⟨left₂, heq₂, hnew₂⟩ := h₂.savepoints
    refine ⟨left₂ ++ left₁, by rw [heq₂, heq₁, List.append_assoc], ?_⟩
    intro s hin
    rcases List.mem_append.mp hin with hin | hin
    · exact Nat.le_trans h₁.nextNumber (hnew₂ s hin)
    · exact hnew₁ s hin
  nextNumber := Nat.le_trans h₁.nextNumber h₂.nextNumber
  inTransaction := h₂.inTransaction.trans h₁.inTransaction
  failRollback hr := h₂.failRollback (h₁.failRollback hr)
  willing hw := h₂.willing (h₁.willing hw)

/-! ### Rollbacks that fail -/

/-- Between two hosts a rollback has failed. The host is told of the next rollback that it fails,
and only that rollback takes the mark away. -/
def RollbackFailed (h h' : Host) : Prop := h.failRollback = true ∧ h'.failRollback = false

theorem not_rollbackFailed (heq : h'.failRollback = h.failRollback) : ¬ h.RollbackFailed h' := by
  rintro ⟨hbefore, hafter⟩
  rw [heq, hbefore] at hafter
  cases hafter

/-- A rollback that fails between two hosts fails in one of the parts between them. -/
theorem rollbackFailed_trans (h₁ : h.failRollback = false → h'.failRollback = false)
    (h₂ : h'.failRollback = false → h''.failRollback = false) :
    h.RollbackFailed h'' ↔ h.RollbackFailed h' ∨ h'.RollbackFailed h'' := by
  unfold RollbackFailed
  cases hfirst : h.failRollback <;> cases hmiddle : h'.failRollback <;> simp_all

/-- No rollback can fail because of the mark any more once one has been tried. -/
theorem failRollback_rollbackSavepoint (h : Host) (id : Nat) :
    (h.rollbackSavepoint id).2.failRollback = false := by
  unfold rollbackSavepoint
  split
  · rfl
  next hfail =>
    have hfalse : h.failRollback = false := by simpa using hfail
    split
    · split <;> exact hfalse
    · exact hfalse

/-- The rollback that the host was told of fails, and takes the mark away. -/
theorem rollbackSavepoint_of_mark (hmark : h.failRollback = true) (id : Nat) :
    h.rollbackSavepoint id = (.error rollbackFailure, { h with failRollback := false }) := by
  unfold rollbackSavepoint
  rw [if_pos hmark]

/-- A rollback that goes well leaves the mark alone: there was none. -/
theorem failRollback_of_rollback {id : Nat} (hrollback : h.rollbackSavepoint id = (.ok (), h')) :
    h'.failRollback = h.failRollback := by
  have hgone := failRollback_rollbackSavepoint h id
  rw [hrollback] at hgone
  cases hmark : h.failRollback with
  | false => exact hgone
  | true =>
    rw [rollbackSavepoint_of_mark hmark] at hrollback
    cases hrollback

theorem failRollback_releaseProtected (hw : h.Willing) (id : Nat) :
    (h.releaseProtected id).2.failRollback = h.failRollback := by
  unfold releaseProtected releaseSavepoint
  rw [if_neg (by simp [hw.2])]
  split
  · split <;> rfl
  · rfl

/-! ### Savepoints of protected calls -/

/-- The savepoint that is started next. -/
def nextSavepoint (h : Host) : Savepoint :=
  { id := h.nextNumber, tables := h.tables, portals := h.portals.map (·.1) }

/-- The host once the next savepoint is started. -/
def begun (h : Host) : Host :=
  { h with nextNumber := h.nextNumber + 1, savepoints := h.nextSavepoint :: h.savepoints }

theorem beginProtected_eq (hw : h.Willing) : h.beginProtected = (.ok h.nextNumber, h.begun) := by
  unfold beginProtected
  rw [if_neg (by simp [hw.1])]
  rfl

theorem follows_begun (h : Host) : h.Follows h.begun where
  savepoints := by
    refine ⟨[h.nextSavepoint], rfl, fun s hin => ?_⟩
    rw [List.mem_singleton.mp hin]
    exact Nat.le_refl _
  nextNumber := Nat.le_succ _
  inTransaction := rfl
  failRollback hr := hr
  willing hw := hw

/-- What is left of the savepoints lies on top, so the end of the innermost one touches none of
those that there were. -/
theorem Follows.ended (hin : h.begun.Follows h') {s : Savepoint} {rest : List Savepoint}
    (hsaved : h'.savepoints = s :: rest) : ∃ left, rest = left ++ h.savepoints ∧
      ∀ s ∈ left, h.nextNumber ≤ s.id := by
  obtain ⟨left, heq, hnew⟩ := ((follows_begun h).trans hin).savepoints
  obtain ⟨inner, hinner, -⟩ := hin.savepoints
  cases left with
  | nil =>
    -- the savepoint that was started is still there
    have hlength : (inner ++ h.begun.savepoints).length = h.savepoints.length := by
      rw [← hinner, heq]
      rfl
    simp only [begun, List.length_append, List.length_cons] at hlength
    omega
  | cons t left =>
    obtain ⟨-, rfl⟩ := List.cons.inj (hsaved.symm.trans heq)
    exact ⟨left, rfl, fun s hs => hnew s (List.mem_cons_of_mem t hs)⟩

/-- The release of the savepoint that was started goes well if it is the innermost one. If it does
not go well, the failure can be caught. -/
theorem Follows.releaseProtected (hw : h.Willing) (hin : h.begun.Follows h') :
    ∃ r h'', h'.releaseProtected h.nextNumber = (r, h'') ∧ h.Follows h'' ∧ Catchable r ∧
      (h'.savepoints = h.begun.savepoints →
        r = .ok () ∧ h''.savepoints = h.savepoints ∧ h''.tables = h'.tables) := by
  have hall := (follows_begun h).trans hin
  unfold Host.releaseProtected releaseSavepoint
  rw [if_neg (by simp [(hall.willing hw).2])]
  cases hsaved : h'.savepoints with
  | nil => exact ⟨_, _, rfl, hall, catchable_error rfl, fun heq => nomatch heq⟩
  | cons s rest =>
    simp only
    split
    next hid =>
      refine ⟨_, _, rfl, ⟨hin.ended hsaved, hall.nextNumber, hall.inTransaction,
        hall.failRollback, hall.willing⟩, catchable_ok (), fun heq => ⟨rfl, ?_, rfl⟩⟩
      exact (List.cons.inj heq).2
    next hid =>
      refine ⟨_, _, rfl, hall, catchable_error rfl, fun heq => absurd ?_ hid⟩
      rw [(List.cons.inj heq).1]
      rfl

/-- A rollback that goes well brings back the savepoints and the tables. It goes well if the
savepoint that was started is the innermost one, unless the host was told to fail. -/
theorem Follows.rollbackSavepoint (hin : h.begun.Follows h') :
    ∃ r h'', h'.rollbackSavepoint h.nextNumber = (r, h'') ∧ h.Follows h'' ∧
      (r = .ok () → h''.savepoints = h.savepoints ∧ h''.tables = h.tables) ∧
      (h'.failRollback = false → h'.savepoints = h.begun.savepoints → r = .ok ()) := by
  have hall := (follows_begun h).trans hin
  unfold Host.rollbackSavepoint
  cases hfail : h'.failRollback with
  | true =>
    rw [if_pos rfl]
    exact ⟨_, _, rfl, ⟨hall.savepoints, hall.nextNumber, hall.inTransaction, fun _ => rfl,
      hall.willing⟩, (fun hr => nomatch hr), fun hr => nomatch hr⟩
  | false =>
    rw [if_neg Bool.false_ne_true]
    cases hsaved : h'.savepoints with
    | nil => exact ⟨_, _, rfl, hall, (fun hr => nomatch hr), fun _ heq => nomatch heq⟩
    | cons s rest =>
      simp only
      split
      next hid =>
        refine ⟨_, _, rfl, ⟨hin.ended hsaved, hall.nextNumber, hall.inTransaction,
          fun _ => rfl, hall.willing⟩, fun _ => ?_, fun _ _ => rfl⟩
        -- everything that is left on top was started later, and has a greater number
        obtain ⟨left, heq, hnew⟩ := hin.savepoints
        rw [hsaved] at heq
        cases left with
        | nil =>
          obtain ⟨rfl, rfl⟩ := List.cons.inj heq
          exact ⟨rfl, rfl⟩
        | cons t left =>
          obtain ⟨rfl, -⟩ := List.cons.inj heq
          have hlate : h.nextNumber + 1 ≤ s.id := hnew s List.mem_cons_self
          omega
      next hid =>
        refine ⟨_, _, rfl, hall, (fun hr => nomatch hr), fun _ heq => absurd ?_ hid⟩
        rw [(List.cons.inj heq).1]
        rfl

end Host

end StoredRoutine
