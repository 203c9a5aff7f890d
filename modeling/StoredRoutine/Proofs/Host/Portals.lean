import StoredRoutine.Proofs.Host.Atomic
import StoredRoutine.Proofs.Host.Routines

/-!
# `StoredRoutine.Proofs.Host.Portals`: one portal of a host

What becomes of the portal of one name when the host does something. Unless the operation closes
the portal, or opens one under its name, there are three possibilities (`portal_perform`): nothing
happens to it, a fetch or a move of this very name changes its position, or a rollback to a
savepoint that does not know it takes it away.

The rows of a portal were copied from the statement's result when it was opened. So operations that
change tables are among those that leave it alone.

`Spares` lists the operations that leave an open portal as it is, its position included. For
rollbacks this depends on the savepoint: one that was active when the portal was opened must not be
rolled back. `Kept` says of the savepoints that all others know the portal, and goes from each
moment to the next (`portal_spared`).
-/

set_option autoImplicit false

namespace StoredRoutine

/-- To fetch moves a cursor; its rows stay. -/
theorem Portal.fetch_rows (p : Portal) (direction : FetchDirection) (count : Int64) :
    (p.fetch direction count).2.rows = p.rows := by
  cases direction with
  -- no row is asked for, or the position changes
  | forward =>
    show (p.forward _).2.rows = _
    unfold forward
    split <;> rfl
  | backward =>
    show (p.backward _).2.rows = _
    unfold backward
    split <;> rfl
  | absolute => rfl
  | relative => rfl

namespace Host

/-- The name under which an operation opens a cursor. -/
def opens? (h : Host) : HostOperation → Option String
  | .openCursor sql params name readOnly =>
    match (h.openCursor sql params name readOnly).1 with
    | .ok opened => some opened
    | .error _ => none
  | _ => none

variable {h h' : Host} {name : String}

/-! ### Parts of operations -/

theorem portal_of_portals (hportals : h'.portals = h.portals) (name : String) :
    h'.portal? name = h.portal? name := by
  unfold portal?
  rw [hportals]

theorem portal_setPortal (h : Host) (opened name : String) (p : Portal) :
    (h.setPortal opened p).portal? name = if name = opened then some p else h.portal? name := by
  unfold portal? setPortal
  rw [List.lookup_cons]
  by_cases hname : name = opened
  · simp [hname]
  · have hbeq : (name == opened) = false := by simpa using hname
    have hkept := lookup_filter_key (fun key => decide (key ≠ opened)) name h.portals
    rw [if_pos (by simpa using hname)] at hkept
    rw [hbeq, if_neg hname]
    exact hkept

/-- To fetch changes the portal of one name. -/
theorem portal_fetch (h : Host) (fetched : String) (direction : FetchDirection) (count : Int64)
    (name : String) :
    (h.fetch fetched direction count).2.portal? name =
      if name = fetched then (h.portal? name).map fun p => (p.fetch direction count).2
      else h.portal? name := by
  unfold fetch
  cases hportal : h.portal? fetched with
  | none =>
    by_cases hname : name = fetched
    · rw [if_pos hname, hname, hportal]
      rfl
    · rw [if_neg hname]
  | some p =>
    have hmoved := lookup_map_key fetched (fun _ => (p.fetch direction count).2) name h.portals
    refine hmoved.trans ?_
    by_cases hname : name = fetched
    · have hopen : h.portals.lookup name = some p := hname ▸ hportal
      rw [if_pos hname, if_pos hname, hopen, show h.portal? name = some p from hopen]
      rfl
    · rw [if_neg hname, if_neg hname]
      rfl

/-- A fetch from an open cursor goes well. -/
theorem fetch_open {p : Portal} (hportal : h.portal? name = some p) (direction : FetchDirection)
    (count : Int64) :
    ∃ h', h.fetch name direction count =
        (.ok { layout := p.rows.layout, rows := (p.fetch direction count).1 }, h') ∧
      h'.portal? name = some (p.fetch direction count).2 ∧ h'.savepoints = h.savepoints := by
  have hmoved := portal_fetch h name direction count name
  rw [if_pos rfl, hportal] at hmoved
  unfold fetch at hmoved ⊢
  rw [hportal] at hmoved ⊢
  exact ⟨_, rfl, hmoved, rfl⟩

/-- To fetch opens no portal and closes none. -/
theorem portalNames_fetch (h : Host) (name : String) (direction : FetchDirection)
    (count : Int64) :
    (h.fetch name direction count).2.portals.map (·.1) = h.portals.map (·.1) := by
  unfold fetch
  cases h.portal? name with
  | none => rfl
  | some p =>
    show List.map _ (List.map _ h.portals) = _
    rw [List.map_map]
    refine List.map_congr_left fun q _ => ?_
    show (if q.1 = name then (q.1, (p.fetch direction count).2) else q).1 = q.1
    split <;> rfl

/-- A cursor that is opened stands before the first of the rows that its statement has returned. Its
name is the one that was asked for, which no open portal had, or the next one that is made. -/
theorem openCursor_ok {sql : String} {params : Row} {asked : Option String} {readOnly : Bool}
    {opened : String} (hopen : h.openCursor sql params asked readOnly = (.ok opened, h')) :
    asked.filter h.hasPortal = none ∧ ∃ result rows h₁,
      h.run sql params readOnly = (.ok result, h₁) ∧ result.rows = some rows ∧
        opened = (h₁.portalName asked).1 ∧
        h' = (h₁.portalName asked).2.setPortal opened { rows, position := 0 } := by
  unfold openCursor at hopen
  split at hopen
  · cases hopen
  next hfree =>
    split at hopen
    · cases hopen
    next result h₁ hrun =>
      split at hopen
      · cases hopen
      next rows hrows =>
        cases hopen
        exact ⟨hfree, result, rows, h₁, hrun, hrows, rfl, rfl⟩

theorem opens?_eq {sql : String} {params : Row} {asked : Option String} {readOnly : Bool}
    {opened : String} (hopen : h.openCursor sql params asked readOnly = (.ok opened, h')) :
    h.opens? (.openCursor sql params asked readOnly) = some opened := by
  unfold opens?
  simp only [hopen]

/-- A cursor that is opened leaves those of other names alone. -/
theorem portal_openCursor (h : Host) (sql : String) (params : Row) (asked : Option String)
    (readOnly : Bool) (hname : h.opens? (.openCursor sql params asked readOnly) ≠ some name) :
    (h.openCursor sql params asked readOnly).2.portal? name = h.portal? name := by
  cases hopen : h.openCursor sql params asked readOnly with
  | mk result h₁ =>
    cases result with
    | error f =>
      refine portal_of_portals ?_ name
      rcases openCursor_failed hopen with halike | ⟨-, result, hrun, -⟩
      · exact halike.portals
      · have hportals := run_portals h sql params readOnly
        rwa [hrun] at hportals
    | ok opened =>
      -- the only portal that is new has the name that is answered
      have hne : name ≠ opened := by
        rintro rfl
        exact hname (opens?_eq hopen)
      obtain ⟨-, result, rows, h₂, hrun, -, rfl, rfl⟩ := openCursor_ok hopen
      have hportals := run_portals h sql params readOnly
      rw [hrun] at hportals
      rw [portal_setPortal, if_neg hne]
      refine portal_of_portals ?_ name
      cases asked with
      | none => exact hportals
      | some asked => exact hportals

theorem portal_closeCursor (h : Host) (closed name : String) :
    (h.closeCursor closed).2.portal? name = if name = closed then none else h.portal? name := by
  unfold closeCursor
  split
  next =>
    have hkept := lookup_filter_key (fun key => decide (key ≠ closed)) name h.portals
    refine hkept.trans ?_
    by_cases hname : name = closed
    · simp [hname]
    · simp [hname, portal?]
  next hnone =>
    by_cases hname : name = closed
    · rw [if_pos hname, hname]
      unfold hasPortal at hnone
      simpa using hnone
    · rw [if_neg hname]

/-- To roll back to a savepoint keeps the cursors that were open when it was started. -/
theorem portal_rollbackSavepoint {s : Savepoint} {rest : List Savepoint} {id : Nat}
    (hsaved : h.savepoints = s :: rest) (hok : h.rollbackSavepoint id = (.ok (), h'))
    (name : String) :
    h'.portal? name = if s.portals.contains name then h.portal? name else none := by
  unfold rollbackSavepoint at hok
  split at hok
  · cases hok
  · rw [hsaved] at hok
    simp only at hok
    split at hok
    · cases hok
      exact lookup_filter_key (fun key => s.portals.contains key) name h.portals
    · cases hok

/-- The rows that a statement returns when it is run for reading, if it returns any. -/
def answer? (h : Host) (sql : String) (params : Row) : Option RowSet :=
  (h.run sql params true).1.toOption.bind (·.rows)

/-- A cursor that is opened without a name stands before the first of these rows. -/
theorem openCursor_answer {sql : String} {params : Row} {rows : RowSet}
    (hrows : h.answer? sql params = some rows) :
    ∃ opened h', h.openCursor sql params none true = (.ok opened, h') ∧
      h'.portal? opened = some { rows, position := 0 } := by
  unfold answer? at hrows
  unfold openCursor
  generalize h.run sql params true = done at hrows ⊢
  obtain ⟨f | result, h₁⟩ := done
  · cases hrows
  · have hresult : result.rows = some rows := hrows
    simp only [Option.filter_none, hresult]
    refine ⟨_, _, rfl, ?_⟩
    rw [portal_setPortal, if_pos rfl]

/-! ### One operation -/

/-- The operation fetches from the cursor of a name, or moves it. -/
def Fetches (name : String) (op : HostOperation) (direction : FetchDirection) (count : Int64) :
    Prop :=
  op = .fetch name direction count ∨ op = .moveCursor name direction count

/-- To fetch and to move do the same to portals. -/
theorem portal_fetches {op : HostOperation} {fetched : String} {direction : FetchDirection}
    {count : Int64} (hop : Fetches fetched op direction count)
    (hdone : h.perform op = (h.fetch fetched direction count).2) :
    (h.perform op).portal? name = h.portal? name ∨
      ∃ direction count, Fetches name op direction count ∧
        (h.perform op).portal? name =
          (h.portal? name).map fun p => (p.fetch direction count).2 := by
  rw [hdone, portal_fetch]
  by_cases hname : name = fetched
  · rw [if_pos hname]
    exact .inr ⟨direction, count, hname ▸ hop, rfl⟩
  · rw [if_neg hname]
    exact .inl rfl

/-- A cursor outlives a rollback to a savepoint, unless it was opened after the savepoint was
started. -/
theorem portal_perform_rollback (h : Host) (id : Nat) (name : String) :
    (h.perform (.rollbackSavepoint id)).portal? name = h.portal? name ∨
      (h.perform (.rollbackSavepoint id)).portal? name = none ∧
        ∃ s, id = s.id ∧
          h.savepoints = s :: (h.perform (.rollbackSavepoint id)).savepoints ∧
          name ∉ s.portals := by
  have hperform : h.perform (.rollbackSavepoint id) = (h.rollbackSavepoint id).2 := rfl
  rw [hperform]
  generalize hdone : h.rollbackSavepoint id = done
  obtain ⟨_ | _, h'⟩ := done
  · rw [rollbackSavepoint_error hdone]
    exact .inl rfl
  · obtain ⟨s, rest, hsaved, rfl, hrest, -⟩ := rollbackSavepoint_ok hdone
    rw [portal_rollbackSavepoint hsaved hdone name]
    by_cases hname : name ∈ s.portals
    · rw [if_pos (List.contains_iff_mem.mpr hname)]
      exact .inl rfl
    · rw [if_neg fun hin => hname (List.contains_iff_mem.mp hin)]
      exact .inr ⟨rfl, s, rfl, hrest ▸ hsaved, hname⟩

/-- What becomes of the cursor of a name if it is neither closed nor opened. -/
theorem portal_perform (h : Host) (op : HostOperation) (hclose : op ≠ .closeCursor name)
    (hopen : h.opens? op ≠ some name) :
    (h.perform op).portal? name = h.portal? name ∨
      (∃ direction count, Fetches name op direction count ∧
        (h.perform op).portal? name =
          (h.portal? name).map fun p => (p.fetch direction count).2) ∨
      (h.perform op).portal? name = none ∧
        ∃ s, op = .rollbackSavepoint s.id ∧ h.savepoints = s :: (h.perform op).savepoints ∧
          name ∉ s.portals := by
  cases op with
  -- the operations on tables do not touch portals
  | insertRow table row =>
    refine .inl (portal_of_portals ?_ name)
    show (h.insertRow table row).2.portals = _
    unfold insertRow
    split <;> rfl
  | execute sql params readOnly limit =>
    exact .inl (portal_of_portals (run_portals h sql params readOnly) name)
  | openCursor sql params asked readOnly => exact .inl (portal_openCursor h _ _ _ _ hopen)
  | fetch fetched direction count => exact (portal_fetches (.inl rfl) rfl).imp_right .inl
  | moveCursor moved direction count => exact (portal_fetches (.inr rfl) rfl).imp_right .inl
  | closeCursor closed =>
    have hne : name ≠ closed := by
      rintro rfl
      exact hclose rfl
    exact .inl ((portal_closeCursor h closed name).trans (if_neg hne))
  | releaseSavepoint id =>
    refine .inl (portal_of_portals ?_ name)
    show (h.releaseSavepoint id).2.portals = _
    unfold releaseSavepoint
    split
    · split <;> rfl
    · rfl
  | rollbackSavepoint id =>
    refine (portal_perform_rollback h id name).imp_right fun hgone => .inr ?_
    obtain ⟨hnone, s, rfl, hsaved⟩ := hgone
    exact ⟨hnone, s, rfl, hsaved⟩
  | _ => exact .inl rfl

/-- What opens a cursor is an opening that goes well. -/
theorem openCursor_of_opens {op : HostOperation} {opened : String}
    (hopens : h.opens? op = some opened) :
    ∃ sql params asked readOnly, op = .openCursor sql params asked readOnly ∧
      h.openCursor sql params asked readOnly = (.ok opened, h.perform op) := by
  cases op with
  | openCursor sql params asked readOnly =>
    refine ⟨sql, params, asked, readOnly, rfl, ?_⟩
    unfold opens? at hopens
    show _ = (_, (h.openCursor sql params asked readOnly).2)
    cases hopen : h.openCursor sql params asked readOnly with
    | mk result h' =>
      simp only [hopen] at hopens
      cases result with
      | error f => cases hopens
      | ok opened =>
        cases hopens
        rfl
  | _ => cases hopens

/-- A portal that is opened stands before its first row. -/
theorem portal_opened {op : HostOperation} {opened : String} (hopens : h.opens? op = some opened) :
    ∃ rows, (h.perform op).portal? opened = some { rows, position := 0 } := by
  obtain ⟨sql, params, asked, readOnly, -, hopen⟩ := openCursor_of_opens hopens
  obtain ⟨-, result, rows, h₁, -, -, -, hdone⟩ := openCursor_ok hopen
  refine ⟨rows, ?_⟩
  rw [hdone, portal_setPortal, if_pos rfl]

/-- A portal that is open after an operation that has not opened it was open before. At most it was
fetched from, or moved. -/
theorem portal_stayed {op : HostOperation} {p : Portal} (hopens : h.opens? op ≠ some name)
    (hportal : (h.perform op).portal? name = some p) :
    ∃ q, h.portal? name = some q ∧
      (p = q ∨ ∃ direction count, p = (q.fetch direction count).2) := by
  by_cases hclose : op = .closeCursor name
  · subst hclose
    have hclosed := portal_closeCursor h name name
    rw [if_pos rfl] at hclosed
    cases hclosed.symm.trans hportal
  · rcases portal_perform h op hclose hopens with
      hsame | ⟨direction, count, -, hmoved⟩ | ⟨hnone, -⟩
    · exact ⟨p, hsame.symm.trans hportal, .inl rfl⟩
    · obtain ⟨q, hq, rfl⟩ := Option.map_eq_some_iff.mp (hmoved.symm.trans hportal)
      exact ⟨q, hq, .inr ⟨direction, count, rfl⟩⟩
    · cases hnone.symm.trans hportal

theorem mem_portals (hopen : h.hasPortal name = true) : name ∈ h.portals.map (·.1) := by
  unfold hasPortal portal? at hopen
  obtain ⟨p, hp⟩ := Option.isSome_iff_exists.mp hopen
  obtain ⟨before, after, heq, -⟩ := List.lookup_eq_some_iff.mp hp
  exact List.mem_map.mpr ⟨(name, p), heq ▸ List.mem_append_right before List.mem_cons_self, rfl⟩

/-! ### A portal that is left alone -/

/-- An operation that does nothing to the open portal of a name: it neither uses nor closes it,
opens no other one under its name, and does not roll back to a savepoint of the list `old`. -/
structure Spares (h : Host) (name : String) (old : List Savepoint) (op : HostOperation) : Prop where
  fetches : ∀ direction count, ¬Fetches name op direction count
  closes : op ≠ .closeCursor name
  opens : h.opens? op ≠ some name
  rollsBack : ∀ s ∈ old, op ≠ .rollbackSavepoint s.id

/-- All savepoints but those of the list `old` know the portal of a name. -/
def Kept (name : String) (old : List Savepoint) (h : Host) : Prop :=
  ∀ s ∈ h.savepoints, s ∈ old ∨ name ∈ s.portals

variable {old : List Savepoint} {p : Portal}

/-- An open portal that is spared stays as it is. -/
theorem portal_spared {op : HostOperation} (hspares : h.Spares name old op)
    (hportal : h.portal? name = some p) (hkept : h.Kept name old) :
    (h.perform op).portal? name = some p ∧ (h.perform op).Kept name old := by
  have hsame : (h.perform op).portal? name = some p := by
    rcases portal_perform h op hspares.closes hspares.opens with
      hsame | ⟨direction, count, hop, -⟩ | ⟨-, s, hop, hsaved, hmissing⟩
    · exact hsame.trans hportal
    · exact absurd hop (hspares.fetches direction count)
    · -- a savepoint that does not know the portal is an old one
      have hin : s ∈ h.savepoints := hsaved ▸ List.mem_cons_self
      rcases hkept s hin with hold | hknown
      · exact absurd hop (hspares.rollsBack s hold)
      · exact absurd hknown hmissing
  refine ⟨hsame, fun s hs => ?_⟩
  obtain ⟨-, ⟨-, hbegun⟩ | hsuffix⟩ := savepoints_perform h op
  · rw [hbegun] at hs
    rcases List.mem_cons.mp hs with rfl | hs
    · -- the portal is open when the savepoint is started
      have hopen : h.hasPortal name = true := by
        unfold hasPortal
        rw [hportal]
        rfl
      exact .inr (mem_portals hopen)
    · exact hkept s hs
  · exact hkept s (hsuffix.subset hs)

/-- A portal that has gone does not come back when its name is spared. -/
theorem gone_spared {op : HostOperation} (hspares : h.Spares name old op)
    (hgone : h.portal? name = none) : (h.perform op).portal? name = none := by
  rcases portal_perform h op hspares.closes hspares.opens with
    hsame | ⟨direction, count, hop, -⟩ | ⟨hnone, -⟩
  · exact hsame.trans hgone
  · exact absurd hop (hspares.fetches direction count)
  · exact hnone

/-- Statements leave all portals alone, whatever they do to the tables. -/
theorem spares_execute (h : Host) (name : String) (old : List Savepoint) (sql : String)
    (params : Row) (readOnly : Bool) (limit : Nat) :
    h.Spares name old (.execute sql params readOnly limit) where
  fetches direction count hop := by
    rcases hop with hop | hop
    · cases hop
    · cases hop
  closes hop := by cases hop
  opens hop := by cases hop
  rollsBack s _ hop := by cases hop

/-- Operations one after the other that all leave the portal of a name alone. -/
def SparesAll (name : String) (old : List Savepoint) : Host → List HostOperation → Prop
  | _, [] => True
  | h, op :: rest => h.Spares name old op ∧ SparesAll name old (h.perform op) rest

theorem portal_sparedAll {ops : List HostOperation} (hspares : SparesAll name old h ops)
    (hportal : h.portal? name = some p) (hkept : h.Kept name old) :
    (h.performAll ops).portal? name = some p ∧ (h.performAll ops).Kept name old := by
  induction ops generalizing h with
  | nil => exact ⟨hportal, hkept⟩
  | cons op rest ih =>
    obtain ⟨hop, hrest⟩ := hspares
    obtain ⟨hportal', hkept'⟩ := portal_spared hop hportal hkept
    exact ih hrest hportal' hkept'

theorem gone_sparedAll {ops : List HostOperation} (hspares : SparesAll name old h ops)
    (hgone : h.portal? name = none) : (h.performAll ops).portal? name = none := by
  induction ops generalizing h with
  | nil => exact hgone
  | cons op rest ih => exact ih hspares.2 (gone_spared hspares.1 hgone)

end Host

end StoredRoutine
