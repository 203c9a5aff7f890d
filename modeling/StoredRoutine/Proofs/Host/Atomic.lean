import StoredRoutine.Proofs.Host.Runs

/-!
# `StoredRoutine.Proofs.Host.Atomic`: operations that fail

An operation of the host that fails leaves the tables, the portals and the savepoints as they were.
There is one exception: a cursor is opened in two steps, and the statement has been run by the time
it turns out that it returns no rows (`perform_of_failure`).
-/

set_option autoImplicit false

namespace StoredRoutine

/-- The failure that was answered. -/
def Outcome.failure? {α : Type} : Outcome α → Option Failure
  | .error f => some f
  | .ok _ => none

namespace Host

/-- The failure that an operation answers. Operations that are not listed answer none. -/
def failure? (h : Host) : HostOperation → Option Failure
  | .insertRow table row => (h.insertRow table row).1.failure?
  | .execute sql params readOnly limit => (h.execute sql params readOnly limit).1.failure?
  | .openCursor sql params name readOnly => (h.openCursor sql params name readOnly).1.failure?
  | .fetch name direction count => (h.fetch name direction count).1.failure?
  | .moveCursor name direction count => (h.moveCursor name direction count).1.failure?
  | .closeCursor name => (h.closeCursor name).1.failure?
  | .releaseSavepoint id => (h.releaseSavepoint id).1.failure?
  | .rollbackSavepoint id => (h.rollbackSavepoint id).1.failure?
  | _ => none

/-- Two hosts with the same tables, portals and savepoints. -/
structure Alike (h h' : Host) : Prop where
  tables : h'.tables = h.tables
  portals : h'.portals = h.portals
  savepoints : h'.savepoints = h.savepoints

theorem Alike.refl (h : Host) : h.Alike h := ⟨rfl, rfl, rfl⟩

variable {h h' : Host} {f : Failure} {sql : String} {params : Row} {readOnly : Bool}

/-! ### Operation by operation -/

/-- A statement changes nothing but tables. Its text is noted. -/
theorem run_eq (h : Host) (sql : String) (params : Row) (readOnly : Bool) :
    ∃ tables, (h.run sql params readOnly).2 =
      { h with executed := h.executed ++ [sql], tables } := by
  unfold run
  simp only
  split
  · exact ⟨_, rfl⟩
  · split
    · exact ⟨_, rfl⟩
    · split
      · exact ⟨_, rfl⟩
      · split <;> exact ⟨_, rfl⟩

theorem run_portals (h : Host) (sql : String) (params : Row) (readOnly : Bool) :
    (h.run sql params readOnly).2.portals = h.portals := by
  obtain ⟨tables, hrun⟩ := h.run_eq sql params readOnly
  rw [hrun]

theorem run_nextNumber (h : Host) (sql : String) (params : Row) (readOnly : Bool) :
    (h.run sql params readOnly).2.nextNumber = h.nextNumber := by
  obtain ⟨tables, hrun⟩ := h.run_eq sql params readOnly
  rw [hrun]

/-- A statement that fails has not changed the tables either. -/
theorem run_alike (hrun : h.run sql params readOnly = (.error f, h')) : h.Alike h' := by
  unfold run at hrun
  simp only at hrun
  split at hrun
  · cases hrun; exact ⟨rfl, rfl, rfl⟩
  · split at hrun
    · cases hrun; exact ⟨rfl, rfl, rfl⟩
    · split at hrun
      · cases hrun; exact ⟨rfl, rfl, rfl⟩
      · split at hrun
        · cases hrun; exact ⟨rfl, rfl, rfl⟩
        · cases hrun

theorem insertRow_alike {table : String} {row : Row}
    (hinsert : h.insertRow table row = (.error f, h')) : h.Alike h' := by
  unfold insertRow at hinsert
  split at hinsert
  · cases hinsert
  · cases hinsert; exact Alike.refl h

theorem execute_alike {limit : Nat}
    (hexecute : h.execute sql params readOnly limit = (.error f, h')) : h.Alike h' := by
  unfold execute at hexecute
  cases hrun : h.run sql params readOnly with
  | mk result h₁ =>
    rw [hrun] at hexecute
    cases result with
    | ok result => cases hexecute
    | error f₁ => cases hexecute; exact run_alike hrun

/-- The statement of a cursor fails, or goes well without returning rows. -/
theorem openCursor_failed {name : Option String}
    (hopen : h.openCursor sql params name readOnly = (.error f, h')) :
    h.Alike h' ∨ f = cursorWithoutRows ∧
      ∃ result, h.run sql params readOnly = (.ok result, h') ∧ result.rows = none := by
  unfold openCursor at hopen
  split at hopen
  · cases hopen; exact .inl (Alike.refl h)
  · split at hopen
    next hrun => cases hopen; exact .inl (run_alike hrun)
    next result _ hrun =>
      split at hopen
      next hrows => cases hopen; exact .inr ⟨rfl, result, hrun, hrows⟩
      · cases hopen

theorem fetch_alike {name : String} {direction : FetchDirection} {count : Int64}
    (hfetch : h.fetch name direction count = (.error f, h')) : h.Alike h' := by
  unfold fetch at hfetch
  split at hfetch
  · cases hfetch; exact Alike.refl h
  · cases hfetch

theorem moveCursor_alike {name : String} {direction : FetchDirection} {count : Int64}
    (hmove : h.moveCursor name direction count = (.error f, h')) : h.Alike h' := by
  unfold moveCursor at hmove
  cases hfetch : h.fetch name direction count with
  | mk result h₁ =>
    rw [hfetch] at hmove
    cases result with
    | ok rows => cases hmove
    | error f₁ => cases hmove; exact fetch_alike hfetch

theorem closeCursor_alike {name : String} (hclose : h.closeCursor name = (.error f, h')) :
    h.Alike h' := by
  unfold closeCursor at hclose
  split at hclose
  · cases hclose
  · cases hclose; exact Alike.refl h

/-! ### All operations -/

theorem Outcome.eq_of_failure {α : Type} {p : Outcome α × Host} (hf : p.1.failure? = some f) :
    p = (.error f, p.2) := by
  obtain ⟨_ | _, _⟩ := p
  · cases hf; rfl
  · cases hf

/-- The operation is to open a cursor on a statement that goes well and returns no rows, and the
second host is what the statement has made of the first one. -/
def RowlessOpening (h : Host) (op : HostOperation) (h' : Host) : Prop :=
  ∃ sql params name readOnly result, op = .openCursor sql params name readOnly ∧
    h.run sql params readOnly = (.ok result, h') ∧ result.rows = none

/-- An operation that fails leaves portals and savepoints as they were, and the tables too, unless
it was to open a cursor on a statement that goes well and returns no rows. What the statement has
done stays done then. -/
theorem perform_of_failure (op : HostOperation) (hf : h.failure? op = some f) :
    h.Alike (h.perform op) ∨
      f = cursorWithoutRows ∧ (h.perform op).portals = h.portals ∧
        (h.perform op).savepoints = h.savepoints ∧ h.RowlessOpening op (h.perform op) := by
  cases op with
  | insertRow table row => exact .inl (insertRow_alike (Outcome.eq_of_failure hf))
  | execute sql params readOnly limit => exact .inl (execute_alike (Outcome.eq_of_failure hf))
  | openCursor sql params name readOnly =>
    have hopen := Outcome.eq_of_failure hf
    -- the statement has run before it turns out that there are no rows
    rcases openCursor_failed hopen with halike | ⟨rfl, result, hrun, hrows⟩
    · exact .inl halike
    · have hportals := run_portals h sql params readOnly
      have hsteady := (gentle_run sql params readOnly).steady h
      simp only [hrun] at hportals hsteady
      exact .inr ⟨rfl, hportals, hsteady.savepoints, sql, params, name, readOnly, result, rfl, hrun,
        hrows⟩
  | fetch name direction count => exact .inl (fetch_alike (Outcome.eq_of_failure hf))
  | moveCursor name direction count => exact .inl (moveCursor_alike (Outcome.eq_of_failure hf))
  | closeCursor name => exact .inl (closeCursor_alike (Outcome.eq_of_failure hf))
  | releaseSavepoint id =>
    have hsame : h.perform (.releaseSavepoint id) = h :=
      releaseSavepoint_error (Outcome.eq_of_failure hf)
    rw [hsame]
    exact .inl (Alike.refl h)
  | rollbackSavepoint id =>
    have hsame : h.perform (.rollbackSavepoint id) = { h with failRollback := false } :=
      rollbackSavepoint_error (Outcome.eq_of_failure hf)
    rw [hsame]
    exact .inl ⟨rfl, rfl, rfl⟩
  | _ => cases hf

/-- A new host with a table, and a statement that adds a row to it. -/
def stocked : Host :=
  new.performAll [.defineTable "items" [{ name := "id", typeId := Scalar.int4.id }],
    .defineStatement "ins" { kind := .insert, action := .insertParams "items" }]

/-- A cursor that is to be opened on this statement. -/
def opening : HostOperation := .openCursor "ins" [some (.int4 1)] none false

theorem perform_of_failure_opening :
    stocked.failure? opening = some cursorWithoutRows ∧
      (stocked.Alike (stocked.perform opening) ∨
        cursorWithoutRows = cursorWithoutRows ∧
          (stocked.perform opening).portals = stocked.portals ∧
          (stocked.perform opening).savepoints = stocked.savepoints ∧
          stocked.RowlessOpening opening (stocked.perform opening)) :=
  ⟨rfl, perform_of_failure opening rfl⟩

/-- The row that its statement has added stays when the cursor cannot be opened. -/
theorem openCursor_not_atomic :
    ¬ ∀ (ops : List HostOperation) (op : HostOperation) (f : Failure),
      (new.performAll ops).failure? op = some f →
      (new.performAll ops).Alike ((new.performAll ops).perform op) := by
  intro hatomic
  have halike : stocked.Alike (stocked.perform opening) := hatomic _ opening cursorWithoutRows rfl
  have hrows := congrArg (List.map fun t : String × RowSet => t.2.rows.length) halike.tables
  have hone : [1] = [0] := hrows
  cases hone

end Host

end StoredRoutine
