import Mathlib.Data.List.Induction
import StoredRoutine.Proofs.Host.Savepoints

/-!
# `StoredRoutine.Proofs.Host.Runs`: savepoints over runs of a host

A host can be told anything in any order. An operation does one of three things to the stack of
savepoints: it leaves the stack alone, puts the next savepoint on top, or takes the top off
(`savepoints_perform`). So every savepoint that is on the stack was started somewhere in the run,
and it lies on the stack of that moment and holds the tables of that moment (`recorded_run`). That
is an invariant of the whole stack: when the top is taken off, what was below is the top.

Numbers never come back (`nextNumber_run_lt`), so a savepoint was started at one place only.
-/

set_option autoImplicit false

namespace StoredRoutine

/-- What a host can be told to do. -/
inductive HostOperation where
  | defineEnum (name : String) (labels : List String)
  | defineDomain (name : String) (base : TypeId) (typeMod : Int32)
  | defineComposite (name : String) (attributes : List Attribute)
  | defineArray (element : TypeId)
  | defineTable (name : String) (attributes : List Attribute)
  | defineStatement (sql : String) (s : Statement)
  | failStatement (sql : String) (report : Report)
  | createRoutine (d : RoutineDefinition)
  | replaceSource (id : TypeId) (source : String)
  | dropRoutine (id : TypeId)
  | addModule (m : InitModule)
  | notice (level : NoticeLevel) (message : String)
  | insertRow (table : String) (row : Row)
  | execute (sql : String) (params : Row) (readOnly : Bool) (limit : Nat)
  /-- A statement that changes the tables in a way of its own. -/
  | alter (f : Tables → Tables)
  | openCursor (sql : String) (params : Row) (name : Option String) (readOnly : Bool)
  | fetch (name : String) (direction : FetchDirection) (count : Int64)
  | moveCursor (name : String) (direction : FetchDirection) (count : Int64)
  | closeCursor (name : String)
  | setInTransaction (value : Bool)
  | failNextRollback
  | beginSavepoint
  | releaseSavepoint (id : Nat)
  | rollbackSavepoint (id : Nat)

namespace Host

/-- The host after an operation, whatever it answered. -/
def perform (h : Host) : HostOperation → Host
  | .defineEnum name labels => (h.defineEnum name labels).2
  | .defineDomain name base typeMod => (h.defineDomain name base typeMod).2
  | .defineComposite name attributes => (h.defineComposite name attributes).2
  | .defineArray element => (h.defineArray element).2
  | .defineTable name attributes => (h.defineTable name attributes).2
  | .defineStatement sql s => h.defineStatement sql s
  | .failStatement sql report => h.failStatement sql report
  | .createRoutine d => (h.createRoutine d).2
  | .replaceSource id source => h.replaceSource id source
  | .dropRoutine id => h.dropRoutine id
  | .addModule m => h.addModule m
  | .notice level message => h.notice level message
  | .insertRow table row => (h.insertRow table row).2
  | .execute sql params readOnly limit => (h.execute sql params readOnly limit).2
  | .alter f => { h with tables := f h.tables }
  | .openCursor sql params name readOnly => (h.openCursor sql params name readOnly).2
  | .fetch name direction count => (h.fetch name direction count).2
  | .moveCursor name direction count => (h.moveCursor name direction count).2
  | .closeCursor name => (h.closeCursor name).2
  | .setInTransaction value => { h with inTransaction := value }
  | .failNextRollback => { h with failRollback := true }
  | .beginSavepoint => h.beginSavepoint.2
  | .releaseSavepoint id => (h.releaseSavepoint id).2
  | .rollbackSavepoint id => (h.rollbackSavepoint id).2

/-- The host after operations, one after the other. -/
def performAll (h : Host) (ops : List HostOperation) : Host := ops.foldl perform h

variable {h : Host} {id : Nat}

/-! ### The two ends of a savepoint -/

/-- A release that goes well takes the innermost savepoint off, and nothing else. -/
theorem releaseSavepoint_ok {h' : Host} (hok : h.releaseSavepoint id = (.ok (), h')) :
    ∃ s rest, h.savepoints = s :: rest ∧ s.id = id ∧ h' = { h with savepoints := rest } := by
  unfold releaseSavepoint at hok
  split at hok
  next s rest hsaved =>
    split at hok
    next hid => cases hok; exact ⟨s, rest, hsaved, hid, rfl⟩
    · cases hok
  · cases hok

theorem releaseSavepoint_error {f : Failure} {h' : Host}
    (herror : h.releaseSavepoint id = (.error f, h')) : h' = h := by
  unfold releaseSavepoint at herror
  split at herror
  · split at herror
    · cases herror
    · cases herror; rfl
  · cases herror; rfl

/-- A rollback that goes well brings back what the innermost savepoint holds. -/
theorem rollbackSavepoint_ok {h' : Host} (hok : h.rollbackSavepoint id = (.ok (), h')) :
    ∃ s rest, h.savepoints = s :: rest ∧ s.id = id ∧ h'.savepoints = rest ∧
      h'.tables = s.tables ∧ h'.nextNumber = h.nextNumber := by
  unfold rollbackSavepoint at hok
  split at hok
  · cases hok
  · split at hok
    next s rest hsaved =>
      split at hok
      next hid => cases hok; exact ⟨s, rest, hsaved, hid, rfl, rfl, rfl⟩
      · cases hok
    · cases hok

/-- A rollback that goes wrong changes at most the wish that it should. -/
theorem rollbackSavepoint_error {f : Failure} {h' : Host}
    (herror : h.rollbackSavepoint id = (.error f, h')) : h' = { h with failRollback := false } := by
  unfold rollbackSavepoint at herror
  split at herror
  · cases herror; rfl
  next hfail =>
    have hsame : h = { h with failRollback := false } := by
      have hfalse : h.failRollback = false := by simpa using hfail
      rw [← hfalse]
    split at herror
    · split at herror
      · cases herror
      · cases herror; exact hsame
    · cases herror; exact hsame

/-- A savepoint that is not the innermost one can be neither released nor rolled back. -/
theorem notInnermost_error (hid : h.savepoints.head?.map (·.id) ≠ some id) :
    (h.releaseSavepoint id).1 = .error (notInnermost id) ∧
      ∃ f, (h.rollbackSavepoint id).1 = .error f := by
  unfold releaseSavepoint rollbackSavepoint
  cases hsaved : h.savepoints with
  | nil =>
    refine ⟨rfl, ?_⟩
    split <;> exact ⟨_, rfl⟩
  | cons s rest =>
    have hne : s.id ≠ id := by simpa [hsaved] using hid
    simp only [if_neg hne, true_and]
    split <;> exact ⟨_, rfl⟩

theorem releaseSavepoint_suffix (h : Host) (id : Nat) :
    (h.releaseSavepoint id).2.nextNumber = h.nextNumber ∧
      (h.releaseSavepoint id).2.savepoints <:+ h.savepoints := by
  generalize hdone : h.releaseSavepoint id = done
  obtain ⟨_ | _, h'⟩ := done
  · rw [releaseSavepoint_error hdone]
    exact ⟨rfl, List.suffix_refl _⟩
  · obtain ⟨s, rest, hsaved, -, rfl⟩ := releaseSavepoint_ok hdone
    exact ⟨rfl, hsaved ▸ List.suffix_cons s rest⟩

theorem rollbackSavepoint_suffix (h : Host) (id : Nat) :
    (h.rollbackSavepoint id).2.nextNumber = h.nextNumber ∧
      (h.rollbackSavepoint id).2.savepoints <:+ h.savepoints := by
  generalize hdone : h.rollbackSavepoint id = done
  obtain ⟨_ | _, h'⟩ := done
  · rw [rollbackSavepoint_error hdone]
    exact ⟨rfl, List.suffix_refl _⟩
  · obtain ⟨s, rest, hsaved, -, rfl, -, hnumber⟩ := rollbackSavepoint_ok hdone
    exact ⟨hnumber, hsaved ▸ List.suffix_cons s _⟩

/-! ### One operation -/

/-- An operation that is steady does not touch savepoints. -/
theorem Steady.untouched {h' : Host} (hs : h.Steady h') :
    h'.savepoints = h.savepoints ∧ h.nextNumber ≤ h'.nextNumber :=
  ⟨hs.savepoints, hs.nextNumber⟩

/-- An operation leaves the savepoints alone, starts the next one, or ends the innermost one. -/
theorem savepoints_perform (h : Host) (op : HostOperation) :
    h.nextNumber ≤ (h.perform op).nextNumber ∧
      (op = .beginSavepoint ∧ (h.perform op).savepoints = h.nextSavepoint :: h.savepoints ∨
        (h.perform op).savepoints <:+ h.savepoints) := by
  -- all but the operations on savepoints are steady, as far as savepoints go
  have hkeep : ∀ {h' : Host}, h'.savepoints = h.savepoints ∧ h.nextNumber ≤ h'.nextNumber →
      h.nextNumber ≤ h'.nextNumber ∧
        (op = .beginSavepoint ∧ h'.savepoints = h.nextSavepoint :: h.savepoints ∨
          h'.savepoints <:+ h.savepoints) := fun hsame =>
    ⟨hsame.2, .inr (hsame.1 ▸ List.suffix_refl _)⟩
  cases op with
  | insertRow table row =>
    refine hkeep ?_
    show (h.insertRow table row).2.savepoints = _ ∧ _ ≤ (h.insertRow table row).2.nextNumber
    unfold insertRow
    split <;> exact ⟨rfl, Nat.le_refl _⟩
  | execute sql params readOnly limit =>
    exact hkeep ((gentle_execute sql params readOnly limit).steady h).untouched
  | openCursor sql params name readOnly =>
    exact hkeep ((gentle_openCursor sql params name readOnly).steady h).untouched
  | fetch name direction count =>
    exact hkeep ((gentle_fetch name direction count).steady h).untouched
  | moveCursor name direction count =>
    exact hkeep ((gentle_moveCursor name direction count).steady h).untouched
  | closeCursor name => exact hkeep ((gentle_closeCursor name).steady h).untouched
  | beginSavepoint => exact ⟨Nat.le_succ _, .inl ⟨rfl, rfl⟩⟩
  | releaseSavepoint id =>
    obtain ⟨hnumber, hsuffix⟩ := releaseSavepoint_suffix h id
    exact ⟨Nat.le_of_eq hnumber.symm, .inr hsuffix⟩
  | rollbackSavepoint id =>
    obtain ⟨hnumber, hsuffix⟩ := rollbackSavepoint_suffix h id
    exact ⟨Nat.le_of_eq hnumber.symm, .inr hsuffix⟩
  | _ => exact hkeep ⟨rfl, Nat.le_refl _⟩

/-! ### Runs -/

theorem performAll_append (h : Host) (before later : List HostOperation) :
    h.performAll (before ++ later) = (h.performAll before).performAll later :=
  List.foldl_append

theorem nextNumber_performAll (h : Host) (ops : List HostOperation) :
    h.nextNumber ≤ (h.performAll ops).nextNumber := by
  induction ops generalizing h with
  | nil => exact Nat.le_refl _
  | cons op rest ih => exact Nat.le_trans (savepoints_perform h op).1 (ih (h.perform op))

/-- Savepoints that were started one after the other have different numbers. -/
theorem nextNumber_lt_of_begun (h : Host) (before later : List HostOperation) :
    (h.performAll before).nextNumber <
      (h.performAll (before ++ .beginSavepoint :: later)).nextNumber := by
  rw [performAll_append]
  exact nextNumber_performAll (h.performAll before).beginSavepoint.2 later

/-- A place of a run at which a savepoint was started. -/
def StartedAt (h : Host) (ops before : List HostOperation) (s : Savepoint) : Prop :=
  (∃ later, ops = before ++ .beginSavepoint :: later) ∧ s = (h.performAll before).nextSavepoint

/-- There is at most one such place for a number. -/
theorem StartedAt.unique {ops before before' : List HostOperation} {s s' : Savepoint}
    (hs : h.StartedAt ops before s) (hs' : h.StartedAt ops before' s') (hid : s.id = s'.id) :
    before = before' := by
  obtain ⟨⟨later, heq⟩, rfl⟩ := hs
  obtain ⟨⟨later', heq'⟩, rfl⟩ := hs'
  have hnumber : (h.performAll before).nextNumber = (h.performAll before').nextNumber := hid
  -- of two places one comes first, and the number of the other one is greater
  have hle : ∀ {front front' back back' : List HostOperation},
      front ++ .beginSavepoint :: back = front' ++ .beginSavepoint :: back' →
      (h.performAll front).nextNumber = (h.performAll front').nextNumber →
      front'.length ≤ front.length := by
    intro front front' back back' hsplit hsame
    by_contra hlt
    obtain ⟨middle, rfl, hmiddle⟩ | ⟨middle, rfl, hmiddle⟩ := List.append_eq_append_iff.mp hsplit
    · cases middle with
      | nil => simp at hlt
      | cons op middle =>
        obtain ⟨rfl, -⟩ := List.cons.inj hmiddle
        have hgreater := h.nextNumber_lt_of_begun front middle
        omega
    · simp at hlt
  have hsplit := heq.symm.trans heq'
  have hlength : before.length = before'.length :=
    Nat.le_antisymm (hle hsplit.symm hnumber.symm) (hle hsplit hnumber)
  exact (List.append_inj hsplit hlength).1

/-- Every savepoint of the stack was started in the run, on top of what lies below it. -/
def Recorded (h : Host) (ops : List HostOperation) (savepoints : List Savepoint) : Prop :=
  ∀ s rest, s :: rest <:+ savepoints →
    ∃ before, h.StartedAt ops before s ∧ rest = (h.performAll before).savepoints

theorem recorded_performAll (hnew : h.savepoints = []) (ops : List HostOperation) :
    h.Recorded ops (h.performAll ops).savepoints := by
  induction ops using List.reverseRecOn with
  | nil =>
    intro s rest hsuffix
    rw [show (h.performAll []).savepoints = [] from hnew] at hsuffix
    exact absurd (List.suffix_nil.mp hsuffix) (List.cons_ne_nil s rest)
  | append_singleton ops op ih =>
    -- what was on the stack before is still recorded in the longer run
    have hold : h.Recorded (ops ++ [op]) (h.performAll ops).savepoints := by
      intro s rest hsuffix
      obtain ⟨before, ⟨⟨later, heq⟩, hs⟩, hrest⟩ := ih s rest hsuffix
      exact ⟨before, ⟨⟨later ++ [op], by rw [heq]; simp⟩, hs⟩, hrest⟩
    intro s rest hsuffix
    rw [performAll_append] at hsuffix
    obtain ⟨-, ⟨rfl, hbegun⟩ | hended⟩ := savepoints_perform (h.performAll ops) op
    · rw [show ((h.performAll ops).performAll [.beginSavepoint]).savepoints = _ from hbegun,
        List.suffix_cons_iff] at hsuffix
      rcases hsuffix with htop | hsuffix
      · obtain ⟨rfl, rfl⟩ := List.cons.inj htop
        exact ⟨ops, ⟨⟨[], rfl⟩, rfl⟩, rfl⟩
      · exact hold s rest hsuffix
    · exact hold s rest (hsuffix.trans hended)

/-! ### The law of savepoints -/

/-- What holds of a savepoint at the end of a run that starts with the host `h`. -/
structure SavepointLaw (h : Host) (ops : List HostOperation) (id : Nat) : Prop where
  /-- A rollback that goes well brings back the tables of the moment at which the savepoint was
  started, and the savepoints below it. -/
  rollback : ∀ h', (h.performAll ops).rollbackSavepoint id = (.ok (), h') →
    ∃ before later, ops = before ++ .beginSavepoint :: later ∧
      (h.performAll before).beginSavepoint.1 = id ∧
      h'.tables = (h.performAll before).beginSavepoint.2.tables ∧
      h'.savepoints = (h.performAll before).savepoints
  /-- A release that goes well leaves the tables alone, and brings back the savepoints. -/
  release : ∀ h', (h.performAll ops).releaseSavepoint id = (.ok (), h') →
    ∃ before later, ops = before ++ .beginSavepoint :: later ∧
      (h.performAll before).beginSavepoint.1 = id ∧
      h'.tables = (h.performAll ops).tables ∧
      h'.savepoints = (h.performAll before).savepoints
  /-- Only the innermost savepoint can be released or rolled back. -/
  innermost : (h.performAll ops).savepoints.head?.map (·.id) ≠ some id →
    (∃ f, ((h.performAll ops).releaseSavepoint id).1 = .error f) ∧
      ∃ f, ((h.performAll ops).rollbackSavepoint id).1 = .error f
  /-- A host that was told so fails to roll back. -/
  injected : (h.performAll ops).failRollback = true →
    ((h.performAll ops).rollbackSavepoint id).1 = .error rollbackFailure
  /-- What goes wrong changes nothing. -/
  unchanged : ∀ f h', (h.performAll ops).releaseSavepoint id = (.error f, h') ∨
      (h.performAll ops).rollbackSavepoint id = (.error f, h') →
    h'.tables = (h.performAll ops).tables ∧ h'.portals = (h.performAll ops).portals ∧
      h'.savepoints = (h.performAll ops).savepoints
  /-- The number was handed out at most once. -/
  once : ∀ before later before' later',
    ops = before ++ .beginSavepoint :: later → ops = before' ++ .beginSavepoint :: later' →
    (h.performAll before).beginSavepoint.1 = id → (h.performAll before').beginSavepoint.1 = id →
    before = before'

/-- Whatever a new host was told to do, savepoints obey the law. -/
theorem savepointLaw_performAll (ops : List HostOperation) (id : Nat) :
    new.SavepointLaw ops id := by
  have hrecorded := recorded_performAll (h := new) rfl ops
  exact {
    rollback := by
      intro h' hok
      -- the innermost savepoint was started at some point of the run, and has recorded the tables
      -- of then
      obtain ⟨s, rest, hsaved, rfl, hrest, htables, -⟩ := rollbackSavepoint_ok hok
      obtain ⟨before, ⟨⟨later, heq⟩, rfl⟩, hbelow⟩ := hrecorded s rest (hsaved ▸ List.suffix_refl _)
      exact ⟨before, later, heq, rfl, htables, hrest.trans hbelow⟩
    release := by
      intro h' hok
      obtain ⟨s, rest, hsaved, rfl, rfl⟩ := releaseSavepoint_ok hok
      obtain ⟨before, ⟨⟨later, heq⟩, rfl⟩, hbelow⟩ := hrecorded s rest (hsaved ▸ List.suffix_refl _)
      exact ⟨before, later, heq, rfl, rfl, hbelow⟩
    innermost := fun hid => ⟨⟨_, (notInnermost_error hid).1⟩, (notInnermost_error hid).2⟩
    injected := fun hfail => by
      unfold rollbackSavepoint
      rw [if_pos hfail]
    unchanged := by
      rintro f h' (herror | herror)
      · rw [releaseSavepoint_error herror]
        exact ⟨rfl, rfl, rfl⟩
      · rw [rollbackSavepoint_error herror]
        exact ⟨rfl, rfl, rfl⟩
    once := fun before later before' later' heq heq' hid hid' =>
      have hs : new.StartedAt ops before _ := ⟨⟨later, heq⟩, rfl⟩
      have hs' : new.StartedAt ops before' _ := ⟨⟨later', heq'⟩, rfl⟩
      hs.unique hs' (hid.trans hid'.symm) }

end Host

end StoredRoutine
