import StoredRoutine.Proofs.Host.Portals
import StoredRoutine.Proofs.Marshal.Documents

/-!
# `StoredRoutine.Proofs.Host.Openings`: cursors, rollbacks and the names of cursors

A savepoint remembers the names of the portals that were open. To roll back to it keeps the portals
of these names, whatever happened to them since.

`Undisturbed` says that the cursor of a name is neither closed nor opened anew in a part of a run.
Then it is the same opening at the end, with the same rows, if it is still there
(`rows_of_undisturbed`). Only a rollback could take it away, and one that ends inside the part does
not: its savepoint was started when the cursor was open (`rows_undisturbed`).

So a rollback brings back the cursors of the moment at which its savepoint was started, except for
names that were opened anew since (`portals_rolledBack`).

A cursor has the name that was asked for, which no open cursor may have, or one that is made from
the next number. No number is used twice, so a made name is never made again. But it can be asked
for before its number comes up. If the cursor that got it in this way is still open then, the one
for which it is made takes its place. This is the only way in which an opening disturbs an open
cursor. Every other one is apart from all that are open (`opening_performAll`).
-/

set_option autoImplicit false

namespace StoredRoutine.Host

/-- The rows of an open cursor. -/
def rows? (h : Host) (name : String) : Option RowSet := (h.portal? name).map (·.rows)

/-- Operations that neither close the cursor of a name nor open one under it. -/
def Undisturbed (name : String) : Host → List HostOperation → Prop
  | _, [] => True
  | h, op :: rest =>
    op ≠ .closeCursor name ∧ h.opens? op ≠ some name ∧ Undisturbed name (h.perform op) rest

variable {h h' : Host} {name : String}

/-! ### One operation -/

theorem rows_of_portal (hportal : h'.portal? name = h.portal? name) :
    h'.rows? name = h.rows? name := congrArg (Option.map Portal.rows) hportal

theorem rows_closeCursor (h : Host) (closed : String) (name : String) :
    (h.closeCursor closed).2.rows? name = if name = closed then none else h.rows? name := by
  unfold rows?
  rw [portal_closeCursor]
  split <;> rfl

/-- An operation that neither closes a cursor nor opens it anew leaves its rows alone, unless it is
a rollback to a savepoint that was started without the cursor. -/
theorem rows_perform (h : Host) (op : HostOperation) (hclose : op ≠ .closeCursor name)
    (hopen : h.opens? op ≠ some name) :
    (h.perform op).rows? name = h.rows? name ∨
      (h.perform op).rows? name = none ∧
        ∃ s, h.savepoints = s :: (h.perform op).savepoints ∧ name ∉ s.portals := by
  rcases portal_perform h op hclose hopen with
    hsame | ⟨direction, count, -, hmoved⟩ | ⟨hnone, s, -, hsaved, hmissing⟩
  · exact .inl (rows_of_portal hsame)
  · -- to fetch and to move changes positions only
    refine .inl ?_
    unfold rows?
    rw [hmoved, Option.map_map]
    exact congrArg (Option.map · _) (funext fun p => p.fetch_rows direction count)
  · refine .inr ⟨?_, s, hsaved, hmissing⟩
    unfold rows?
    rw [hnone]
    rfl

/-! ### Parts of a run -/

theorem hasPortal_iff : h.hasPortal name = true ↔ ∃ rows, h.rows? name = some rows := by
  unfold hasPortal rows?
  cases h.portal? name <;> simp

/-- A cursor that is there at the end of an undisturbed part was there at its start, with the same
rows. -/
theorem rows_of_undisturbed {later : List HostOperation} {rows : RowSet}
    (hundisturbed : Undisturbed name h later)
    (hend : (h.performAll later).rows? name = some rows) : h.rows? name = some rows := by
  induction later generalizing h with
  | nil => exact hend
  | cons op later ih =>
    obtain ⟨hclose, hopen, hlater⟩ := hundisturbed
    have hnext := ih hlater hend
    rcases rows_perform h op hclose hopen with hsame | ⟨hnone, -⟩
    · exact hsame.symm.trans hnext
    · rw [hnone] at hnext
      cases hnext

/-- In every part of a run the cursor of a name is left alone, or there is a last operation that
closes it or opens it anew. -/
theorem undisturbed_or (name : String) (h : Host) (later : List HostOperation) :
    Undisturbed name h later ∨ ∃ first op rest, later = first ++ op :: rest ∧
      (op = .closeCursor name ∨ (h.performAll first).opens? op = some name) ∧
      Undisturbed name ((h.performAll first).perform op) rest := by
  induction later generalizing h with
  | nil => exact .inl trivial
  | cons op later ih =>
    rcases ih (h.perform op) with hlater | ⟨first, op', rest, rfl, hdone, hrest⟩
    · by_cases hop : op = .closeCursor name ∨ h.opens? op = some name
      · exact .inr ⟨[], op, later, rfl, hop, hlater⟩
      · rw [not_or] at hop
        exact .inl ⟨hop.1, hop.2, hlater⟩
    · exact .inr ⟨op :: first, op', rest, rfl, hdone, hrest⟩

/-- A cursor that is there at the end of a part of a run was there at its start and was left alone,
or there is a last operation that opens it, with the rows that it has. -/
theorem origin_of_rows {later : List HostOperation} {rows : RowSet}
    (hend : (h.performAll later).rows? name = some rows) :
    h.rows? name = some rows ∧ Undisturbed name h later ∨
      ∃ first op rest, later = first ++ op :: rest ∧
        (h.performAll first).opens? op = some name ∧
        ((h.performAll first).perform op).rows? name = some rows ∧
        Undisturbed name ((h.performAll first).perform op) rest := by
  rcases undisturbed_or name h later with hundisturbed | ⟨first, op, rest, rfl, hop, hrest⟩
  · exact .inl ⟨rows_of_undisturbed hundisturbed hend, hundisturbed⟩
  · rw [performAll_append] at hend
    have hrows := rows_of_undisturbed hrest hend
    refine .inr ⟨first, op, rest, rfl, hop.resolve_left ?_, hrows, hrest⟩
    -- what was closed last is not there at the end
    rintro rfl
    have hclosed := rows_closeCursor (h.performAll first) name name
    rw [if_pos rfl] at hclosed
    cases hclosed.symm.trans hrows

/-- A savepoint with an old number that is on the stack after a part of a run was there all along,
with the same savepoints below it. -/
theorem suffix_of_performAll {later : List HostOperation} {s : Savepoint} {rest : List Savepoint}
    (hold : s.id < h.nextNumber) (hend : s :: rest <:+ (h.performAll later).savepoints) :
    s :: rest <:+ h.savepoints := by
  induction later generalizing h with
  | nil => exact hend
  | cons op later ih =>
    obtain ⟨hnumber, hstack⟩ := savepoints_perform h op
    have hnext := ih (Nat.lt_of_lt_of_le hold hnumber) hend
    rcases hstack with ⟨-, hbegun⟩ | hsuffix
    · rw [hbegun, List.suffix_cons_iff] at hnext
      rcases hnext with htop | hbelow
      · obtain ⟨rfl, -⟩ := List.cons.inj htop
        exact absurd hold (Nat.lt_irrefl _)
      · exact hbelow
    · exact hnext.trans hsuffix

/-- The savepoints above a part of the stack were started when the cursor was open. -/
def Covered (name : String) (base : List Savepoint) (h : Host) : Prop :=
  ∀ above, h.savepoints = above ++ base → ∀ s ∈ above, name ∈ s.portals

/-- An open cursor that is left alone stays open, and keeps its rows, as long as the savepoint stays
that was the innermost one. Rollbacks in between are to savepoints that were started since, with the
cursor open. -/
theorem rows_undisturbed {later : List HostOperation} {s : Savepoint} {below : List Savepoint}
    {rows : RowSet} (hstart : h.rows? name = some rows) (hold : s.id < h.nextNumber)
    (hcovered : h.Covered name (s :: below))
    (hend : s :: below <:+ (h.performAll later).savepoints)
    (hundisturbed : Undisturbed name h later) : (h.performAll later).rows? name = some rows := by
  induction later generalizing h with
  | nil => exact hstart
  | cons op later ih =>
    obtain ⟨hclose, hopen, hlater⟩ := hundisturbed
    obtain ⟨hnumber, hstack⟩ := savepoints_perform h op
    have hnew : s.id < (h.perform op).nextNumber := Nat.lt_of_lt_of_le hold hnumber
    have hstays : s :: below <:+ (h.perform op).savepoints := suffix_of_performAll hnew hend
    have hrows : (h.perform op).rows? name = some rows := by
      rcases rows_perform h op hclose hopen with hsame | hnone
      · exact hsame.trans hstart
      · -- a rollback that takes the cursor away is to a savepoint that is covered
        obtain ⟨t, hsaved, hmissing⟩ := hnone.2
        obtain ⟨above, habove⟩ := hstays
        have hin := hcovered (t :: above) (by rw [hsaved, ← habove, List.cons_append]) t
        exact absurd (hin List.mem_cons_self) hmissing
    -- the savepoints are still covered: a new one knows the cursor
    refine ih hrows hnew ?_ hend hlater
    intro above habove t ht
    rcases hstack with ⟨-, hbegun⟩ | ⟨ended, hended⟩
    · rw [hbegun] at habove
      cases above with
      | nil => cases ht
      | cons top above =>
        obtain ⟨rfl, hrest⟩ := List.cons.inj habove
        rcases List.mem_cons.mp ht with rfl | hin
        · exact mem_portals (hasPortal_iff.mpr ⟨rows, hstart⟩)
        · exact hcovered above hrest t hin
    · refine hcovered (ended ++ above) ?_ t (List.mem_append_right ended ht)
      rw [← hended, habove, List.append_assoc]

theorem hasPortal_of_mem (hin : name ∈ h.portals.map (·.1)) : h.hasPortal name = true := by
  unfold hasPortal portal?
  rw [Option.isSome_iff_ne_none, ne_eq, List.lookup_eq_none_iff]
  intro hnone
  obtain ⟨q, hq, rfl⟩ := List.mem_map.mp hin
  simpa using hnone q hq

/-! ### Rollbacks -/

/-- What a rollback that goes well leaves of the cursors. Between the start `h` of its savepoint and
the rollback, the operations `later` were performed; `h'` is the host after the rollback. -/
structure RolledBack (h : Host) (later : List HostOperation) (h' : Host) : Prop where
  /-- The cursors of the names that were open at the start are left. -/
  portals : ∀ name, h'.portal? name =
    if h.hasPortal name then (h.performAll later).portal? name else none
  /-- A cursor that was open at the start, and was neither closed nor opened anew, is open with its
  rows. -/
  kept : ∀ name rows, h.rows? name = some rows → Undisturbed name h later →
    h'.rows? name = some rows
  /-- A cursor that is open was open at the start with the same rows, and was neither closed nor
  opened anew since; or it was opened since, under a name that was open at the start. -/
  origin : ∀ name rows, h'.rows? name = some rows →
    h.rows? name = some rows ∧ Undisturbed name h later ∨
      h.hasPortal name = true ∧ ∃ first op rest, later = first ++ op :: rest ∧
        (h.performAll first).opens? op = some name ∧
        ((h.performAll first).perform op).rows? name = some rows ∧
        Undisturbed name ((h.performAll first).perform op) rest

theorem rolledBack_of_start {later : List HostOperation} {s : Savepoint} {below : List Savepoint}
    {id : Nat} (hstart : h.savepoints = s :: below) (hportals : s.portals = h.portals.map (·.1))
    (hold : s.id < h.nextNumber) (hend : (h.performAll later).savepoints = s :: below)
    (hok : (h.performAll later).rollbackSavepoint id = (.ok (), h')) : h.RolledBack later h' := by
  -- open afterwards are the cursors that were open at the start, if they still were before
  have hleft : ∀ name, h'.portal? name =
      if h.hasPortal name then (h.performAll later).portal? name else none := by
    intro name
    rw [portal_rollbackSavepoint hend hok name]
    refine if_congr ?_ rfl rfl
    rw [List.contains_iff_mem, hportals]
    exact ⟨hasPortal_of_mem, mem_portals⟩
  refine ⟨hleft, fun name rows hrows hundisturbed => ?_, fun name rows hrows => ?_⟩
  · -- no savepoint was started above this one yet
    have hcovered : h.Covered name (s :: below) := by
      intro above habove t ht
      rw [List.self_eq_append_left.mp (hstart.symm.trans habove)] at ht
      cases ht
    have hlast := rows_undisturbed hrows hold hcovered (hend ▸ List.suffix_refl _) hundisturbed
    unfold rows?
    rw [hleft name, if_pos (hasPortal_iff.mpr ⟨rows, hrows⟩)]
    exact hlast
  · have hopen : h.hasPortal name = true := by
      by_contra hnone
      unfold rows? at hrows
      rw [hleft name, if_neg hnone] at hrows
      cases hrows
    have hlast : (h.performAll later).rows? name = some rows := by
      unfold rows? at hrows
      rwa [hleft name, if_pos hopen] at hrows
    exact (origin_of_rows hlast).imp_right fun horigin => ⟨hopen, horigin⟩

/-- Whatever a new host was told to do, a rollback that goes well leaves the cursors of the moment
at which its savepoint was started, and cursors opened since under their names. -/
theorem portals_rolledBack {ops : List HostOperation} {id : Nat}
    (hok : (new.performAll ops).rollbackSavepoint id = (.ok (), h')) :
    ∃ before later, ops = before ++ .beginSavepoint :: later ∧
      (new.performAll before).beginSavepoint.1 = id ∧
      (new.performAll before).beginSavepoint.2.RolledBack later h' := by
  obtain ⟨s, below, hsaved, rfl, -⟩ := rollbackSavepoint_ok hok
  obtain ⟨before, ⟨⟨later, rfl⟩, rfl⟩, rfl⟩ :=
    recorded_performAll (h := new) rfl ops s below (hsaved ▸ List.suffix_refl _)
  refine ⟨before, later, rfl, rfl, ?_⟩
  rw [performAll_append] at hsaved hok
  exact rolledBack_of_start rfl rfl (Nat.lt_succ_self _) hsaved hok

/-- A new host with a table, a statement that reads it, and a cursor on this statement. -/
def browsing : List HostOperation :=
  [.defineTable "items" [{ name := "id", typeId := Scalar.int4.id }],
    .defineStatement "sel" { kind := .select, action := .selectAll "items" },
    .openCursor "sel" [] (some "c") false]

/-- In a savepoint the cursor is closed, and another one is opened under its name. -/
def reopening : List HostOperation :=
  [.closeCursor "c", .openCursor "sel" [] (some "c") false]

theorem portals_rolledBack_reopening :
    ((new.performAll (browsing ++ .beginSavepoint :: reopening)).rollbackSavepoint 1).1 = .ok () ∧
      ∃ before later, browsing ++ .beginSavepoint :: reopening =
          before ++ .beginSavepoint :: later ∧
        (new.performAll before).beginSavepoint.1 = 1 ∧
        (new.performAll before).beginSavepoint.2.RolledBack later
          ((new.performAll (browsing ++ .beginSavepoint :: reopening)).rollbackSavepoint 1).2 :=
  ⟨rfl, portals_rolledBack rfl⟩

/-- The cursor that was opened in the savepoint is there after the rollback. -/
theorem reopened_survives :
    ¬ ∀ (ops : List HostOperation) (id : Nat) (h' : Host),
      (new.performAll ops).rollbackSavepoint id = (.ok (), h') →
      ∃ before later, ops = before ++ .beginSavepoint :: later ∧
        (new.performAll before).beginSavepoint.1 = id ∧
        ∀ name, h'.hasPortal name = true →
          Undisturbed name (new.performAll before).beginSavepoint.2 later := by
  intro hlaw
  obtain ⟨before, later, hops, hid, hundisturbed⟩ :=
    hlaw (browsing ++ .beginSavepoint :: reopening) 1 _ rfl
  -- the savepoint was started after the cursor was opened
  have hbegun : new.StartedAt (browsing ++ .beginSavepoint :: reopening) before
    (new.performAll before).nextSavepoint := ⟨⟨later, hops⟩, rfl⟩
  obtain rfl : browsing = before :=
    StartedAt.unique ⟨⟨reopening, rfl⟩, rfl⟩ hbegun hid.symm
  obtain ⟨-, rfl⟩ := List.cons.inj (List.append_cancel_left hops)
  exact (hundisturbed "c" rfl).1 rfl

end StoredRoutine.Host

namespace StoredRoutine.Host

/-- The name that is made from a number. -/
def madeName (n : Nat) : String := s!"<unnamed portal {n}>"

theorem toList_madeName (n : Nat) :
    (madeName n).toList = "<unnamed portal ".toList ++ (toString n).toList ++ ">".toList := by
  unfold madeName
  rw [String.toList_append, String.toList_append]
  rfl

theorem madeName_injective : Function.Injective madeName := by
  intro m n hsame
  have htexts := congrArg String.toList hsame
  rw [toList_madeName, toList_madeName] at htexts
  have hdigits := List.append_cancel_left (List.append_cancel_right htexts)
  exact Json.toString_injective (String.toList_injective hdigits)

variable {h h' : Host} {opened : String} {sql : String} {params : Row} {asked : Option String}
  {readOnly : Bool}

/-! ### One opening -/

theorem portal_opening (hopen : h.openCursor sql params asked readOnly = (.ok opened, h')) :
    (∃ rows, h'.portal? opened = some { rows, position := 0 }) ∧
      ∀ name, name ≠ opened → h'.portal? name = h.portal? name := by
  have hopens := opens?_eq hopen
  have hdone : h.perform (.openCursor sql params asked readOnly) = h' := congrArg Prod.snd hopen
  refine ⟨hdone ▸ portal_opened hopens, fun name hname => ?_⟩
  have hother : h.opens? (.openCursor sql params asked readOnly) ≠ some name := by
    rw [hopens]
    exact fun heq => hname (Option.some.inj heq).symm
  exact hdone ▸ portal_openCursor h sql params asked readOnly hother

/-- A name that was asked for is that of no open cursor. -/
theorem not_hasPortal_of_asked
    (hopen : h.openCursor sql params (some opened) readOnly = (.ok opened, h')) :
    h.hasPortal opened = false := by
  obtain ⟨hfree, -⟩ := openCursor_ok hopen
  rw [Option.filter_eq_none_iff] at hfree
  simpa using hfree opened rfl

/-- A cursor has the name that was asked for, or the one that is made from the next number. -/
theorem opened_eq (hopen : h.openCursor sql params asked readOnly = (.ok opened, h')) :
    asked = some opened ∨
      asked = none ∧ opened = madeName h.nextNumber ∧ h'.nextNumber = h.nextNumber + 1 := by
  obtain ⟨-, result, rows, h₁, hrun, -, rfl, rfl⟩ := openCursor_ok hopen
  cases asked with
  | some asked => exact .inl rfl
  | none =>
    have hnumber := run_nextNumber h sql params readOnly
    rw [hrun] at hnumber
    exact .inr ⟨rfl, congrArg madeName hnumber, congrArg (· + 1) hnumber⟩

/-! ### Runs -/

/-- In a run, an operation opened the cursor of a name, which was neither closed nor opened anew
since. -/
structure OpenedBy (ops : List HostOperation) (name : String) (before : List HostOperation)
    (op : HostOperation) (later : List HostOperation) : Prop where
  run : ops = before ++ op :: later
  opens : (new.performAll before).opens? op = some name
  undisturbed : Undisturbed name ((new.performAll before).perform op) later

/-- Every open cursor of a host was opened by an operation. -/
theorem openedBy_of_hasPortal {ops : List HostOperation} {name : String}
    (hopen : (new.performAll ops).hasPortal name = true) :
    ∃ before op later, OpenedBy ops name before op later := by
  obtain ⟨rows, hrows⟩ := hasPortal_iff.mp hopen
  rcases origin_of_rows hrows with ⟨hnew, -⟩ | ⟨before, op, later, hops, hopens, -, hundisturbed⟩
  · -- a new host has no cursors
    cases hnew
  · exact ⟨before, op, later, hops, hopens, hundisturbed⟩

/-- The name of an open cursor that the host would make next was asked for. -/
theorem asked_of_openedBy {ops before later : List HostOperation} {op : HostOperation}
    (hopened : OpenedBy ops (madeName (new.performAll ops).nextNumber) before op later) :
    ∃ sql params readOnly,
      op = .openCursor sql params (some (madeName (new.performAll ops).nextNumber)) readOnly := by
  obtain ⟨sql, params, asked, readOnly, rfl, hopen⟩ := openCursor_of_opens hopened.opens
  rcases opened_eq hopen with rfl | ⟨rfl, hname, hnumber⟩
  · exact ⟨sql, params, readOnly, rfl⟩
  · -- otherwise its number was used up at that time
    have hlast : (new.performAll ops).nextNumber = (new.performAll before).nextNumber :=
      madeName_injective hname
    have hlater := nextNumber_performAll
      ((new.performAll before).perform (.openCursor sql params none readOnly)) later
    rw [hnumber, ← hlast, hopened.run, performAll_append] at hlater
    exact absurd hlater (Nat.not_succ_le_self _)

/-- An opening that disturbs no cursor. -/
structure Apart (ops : List HostOperation) (opened : String) (h' : Host) : Prop where
  /-- The name was not that of an open cursor. -/
  fresh : (new.performAll ops).portal? opened = none
  /-- The new cursor stands before its first row. -/
  starts : ∃ rows, h'.portal? opened = some { rows, position := 0 }
  /-- Every cursor that was open is open with the same rows and at the same position. -/
  kept : ∀ name p, (new.performAll ops).portal? name = some p → h'.portal? name = some p
  /-- A cursor that was opened before, and whose name was that of an open cursor ever since, has
  another name. -/
  distinct : ∀ before op later name, ops = before ++ op :: later →
    (new.performAll before).opens? op = some name →
    (∀ first, first <+: later →
      (((new.performAll before).perform op).performAll first).hasPortal name = true) →
    name ≠ opened

/-- An opening that takes the place of an open cursor. -/
structure InPlace (ops : List HostOperation) (asked : Option String) (opened : String) (h' : Host) :
    Prop where
  /-- The name is made. -/
  made : asked = none ∧ opened = madeName (new.performAll ops).nextNumber
  /-- It was asked for before, and the cursor that got it was neither closed nor opened anew. -/
  taken : ∃ before sql params readOnly later,
    OpenedBy ops opened before (.openCursor sql params (some opened) readOnly) later
  /-- The new cursor stands before its first row. -/
  starts : ∃ rows, h'.portal? opened = some { rows, position := 0 }
  /-- All others are open with the same rows and at the same positions. -/
  others : ∀ name, name ≠ opened → h'.portal? name = (new.performAll ops).portal? name

/-- What is opened under the name of an open cursor takes its place. -/
theorem inPlace_of_hasPortal {ops : List HostOperation}
    (hopen : (new.performAll ops).openCursor sql params asked readOnly = (.ok opened, h'))
    (htaken : (new.performAll ops).hasPortal opened = true) : InPlace ops asked opened h' := by
  obtain ⟨hstarts, hothers⟩ := portal_opening hopen
  rcases opened_eq hopen with rfl | ⟨hasked, hname, -⟩
  · -- a name that was asked for is refused when it is taken
    cases (not_hasPortal_of_asked hopen).symm.trans htaken
  · obtain ⟨before, op, later, hopened⟩ := openedBy_of_hasPortal htaken
    obtain ⟨sql', params', readOnly', rfl⟩ := asked_of_openedBy (hname ▸ hopened)
    refine ⟨⟨hasked, hname⟩, ⟨before, sql', params', readOnly', later, ?_⟩, hstarts, hothers⟩
    rwa [← hname] at hopened

/-- Whatever a new host was told to do, to open a cursor disturbs no open one, unless its name is
made and was asked for before. -/
theorem opening_performAll {ops : List HostOperation}
    (hopen : (new.performAll ops).openCursor sql params asked readOnly = (.ok opened, h')) :
    Apart ops opened h' ∨ InPlace ops asked opened h' := by
  obtain ⟨hstarts, hothers⟩ := portal_opening hopen
  by_cases htaken : (new.performAll ops).hasPortal opened = true
  · exact .inr (inPlace_of_hasPortal hopen htaken)
  · have hne (name : String) (hold : (new.performAll ops).hasPortal name = true) :
        name ≠ opened := fun heq => htaken (heq ▸ hold)
    refine .inl ⟨?_, hstarts, fun name p hp => ?_, ?_⟩
    · unfold hasPortal at htaken
      simpa using htaken
    · refine (hothers name (hne name ?_)).trans hp
      unfold hasPortal
      rw [hp]
      rfl
    · rintro before op later name rfl - hstands
      refine hne name ?_
      rw [performAll_append]
      exact hstands later (List.prefix_refl later)

/-- An unnamed cursor next to one that has a name. -/
theorem opening_performAll_browsing :
    ∃ h', (new.performAll browsing).openCursor "sel" [] none false = (.ok (madeName 1), h') ∧
      (Apart browsing (madeName 1) h' ∨ InPlace browsing none (madeName 1) h') := by
  have hopen : (new.performAll browsing).openCursor "sel" [] none false =
    (.ok (madeName 1), _) := rfl
  exact ⟨_, hopen, opening_performAll hopen⟩

/-- A new host with a table, and a cursor that was opened under the first name that is made. -/
def guessing : List HostOperation :=
  [.defineTable "items" [{ name := "id", typeId := Scalar.int4.id }],
    .defineStatement "sel" { kind := .select, action := .selectAll "items" },
    .openCursor "sel" [] (some (madeName 1)) false]

/-- An unnamed cursor takes its place. -/
theorem opening_not_apart :
    ¬ ∀ (ops : List HostOperation) (sql : String) (params : Row) (asked : Option String)
      (readOnly : Bool) (opened : String) (h' : Host),
      (new.performAll ops).openCursor sql params asked readOnly = (.ok opened, h') →
        Apart ops opened h' := by
  intro hapart
  cases (hapart guessing "sel" [] none false (madeName 1) _ rfl).fresh

end StoredRoutine.Host
