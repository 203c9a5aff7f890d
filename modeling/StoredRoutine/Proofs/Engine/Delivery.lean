import StoredRoutine.Proofs.Engine.Fetching
import StoredRoutine.Proofs.Engine.Routines

/-!
# `StoredRoutine.Proofs.Engine.Delivery`: an iterator gives the rows of its opening, each once

`server.rows` and the rows of a plan run a statement, leave its rows in a portal of the host, and
answer an iterator. The iterator fetches the rows in batches, and keeps in its queue those that were
not asked for yet. `Loop` is the life of one iterator: it is asked for rows, and between two calls
the engine and the host may do whatever leaves this iterator and its portal alone (`Beside`).

`Delivering` says where an iterator is when it has been asked `k` times: the queue is what lies
between row `k` and the position of the portal. So if the queue is empty, the portal stands in front
of row `k` or at the end of the rows, and the next batch starts there (`Portal.forward_ahead`). Each
call leads from `k` to `k + 1` (`Delivering.proceeds`), and all else leaves `k` as it is
(`Delivering.beside`). `Loop.delivers` sums this up over a whole loop.

On its way to the host the size of a batch becomes a word with a sign. From `2 ^ 63` on it is
negative there, and the iterator gives no row at all (`nextRow_not_always_delivers`).
-/

set_option autoImplicit false

namespace StoredRoutine

open Script (AllOf ObjectId Value)

/-! ### Parts of computations -/

theorem ofOutcome_ok {α : Type} {o : Outcome α} {a : α} {e e' : Engine}
    (h : Serving.ofOutcome o e = (.ok a, e')) : o = .ok a ∧ e = e' := by
  cases o with
  | error f => cases h
  | ok b =>
    cases h
    exact ⟨rfl, rfl⟩

namespace Serving

/-- The parameters of a plan are found without the host. -/
theorem describes_bindParams (p : Plan) (given : Option Script.TableId) :
    Describes (bindParams p given) := by
  unfold bindParams
  split
  · exact describes_ofOutcome (.ok [])
  · split
    · exact describes_ofOutcome (.error _)
    · exact describes_mapM (fun _ => describes_get fun _ => describes_toDatum _ _ _) _

theorem ownArguments_ok {kind : Script.ObjectKind} {args rest : List Value} {id : ObjectId}
    {e e' : Engine} (h : ownArguments kind args e = (.ok (id, rest), e')) :
    args.head? = some (.object kind id) ∧ e = e' := by
  unfold ownArguments at h
  split at h
  · split at h
    next hkind =>
      cases h
      exact ⟨congrArg (fun k => some (Value.object k id)) hkind, rfl⟩
    · cases h
  · cases h

theorem planOf_ok {id : ObjectId} {p : Plan} {e e' : Engine} (h : planOf id e = (.ok p, e')) :
    e.object? id = some (.plan p) ∧ e = e' := by
  unfold planOf at h
  rw [run_get_bind] at h
  generalize e.object? id = found at h ⊢
  cases found with
  | none => cases h
  | some o =>
    cases o with
    | plan _ =>
      cases h
      exact ⟨rfl, rfl⟩
    | _ => cases h

end Serving

/-! ### Batches -/

/-- A batch that is fetched when nothing is left between row `k` and the position: it is what lies
between row `k` and the new position, and it is empty at the end of the rows only. -/
theorem Portal.forward_ahead (p : Portal) {count k : Nat} (hcount : 0 < count)
    (hk : k ≤ p.rows.rows.length) (hposition : k ≤ p.position)
    (hnone : (p.rows.rows.take p.position).drop k = []) :
    (p.forward count).1 = (p.rows.rows.take (p.forward count).2.position).drop k ∧
      k ≤ (p.forward count).2.position ∧ (p.forward count).1.length ≤ count ∧
      ((p.forward count).1 = [] → k = p.rows.rows.length) := by
  rw [List.drop_eq_nil_iff, List.length_take] at hnone
  unfold forward total
  rw [if_neg (Nat.ne_of_gt hcount)]
  dsimp only
  refine ⟨List.ext_getElem? fun j => ?_, ?_, List.length_take_le _ _, fun hend => ?_⟩
  · rw [List.getElem?_take, List.getElem?_drop, List.getElem?_drop, List.getElem?_take]
    -- past the last row there is nothing on either side
    by_cases hlast : p.position + j < p.rows.rows.length
    · have hsame : k = p.position := by omega
      subst hsame
      refine if_congr ?_ rfl rfl
      split <;> omega
    · have hleft : p.rows.rows[p.position + j]? = none := List.getElem?_eq_none (by omega)
      have hright : p.rows.rows[k + j]? = none := List.getElem?_eq_none (by omega)
      rw [hleft, hright, ite_self, ite_self]
  · split <;> omega
  · rw [List.take_eq_nil_iff, List.drop_eq_nil_iff] at hend
    omega

/-- The size of a batch as the host gets it. -/
theorem Int64.toNat_toInt_ofNat {n : Nat} (hn : n < 2 ^ 63) :
    (Int64.ofNat n).toInt.toNat = n := by
  rw [Int64.toInt_ofNat_of_lt hn]
  rfl

namespace CleanupRegistry

variable {α : Type}

/-- The entries of a name. -/
def under (r : CleanupRegistry α) (c : CleanupId) : List (CleanupId × α) :=
  r.entries.filter fun x => x.1 == c

theorem under_unregister (r : CleanupRegistry α) (c : CleanupId) :
    (r.unregister c).2.under c = (r.under c).tail := by
  show (r.entries.eraseP fun x => x.1 == c).filter _ = (r.entries.filter _).tail
  induction r.entries with
  | nil => rfl
  | cons x rest ih =>
    rw [List.eraseP_cons, List.filter_cons]
    cases hx : x.1 == c with
    | true => rfl
    | false =>
      have hskip : (x :: rest.eraseP fun x => x.1 == c).filter (fun x => x.1 == c) =
          (rest.eraseP fun x => x.1 == c).filter fun x => x.1 == c :=
        List.filter_cons_of_neg (by rw [hx]; exact Bool.false_ne_true)
      exact hskip.trans ih

theorem not_contains_of_under {r : CleanupRegistry α} {c : CleanupId} (hr : r.under c = []) :
    r.contains c = false := by
  have hnone := List.filter_eq_nil_iff.mp hr
  unfold contains
  rw [Bool.eq_false_iff]
  intro hsome
  obtain ⟨x, hx, hname⟩ := List.any_eq_true.mp hsome
  exact hnone x hx hname

/-- A new entry is the only one of its name. -/
theorem under_register {r : CleanupRegistry α} (hr : ∀ x ∈ r.entries, x.1.number < r.next)
    (action : α) : (r.register action).2.under (r.register action).1 = [(⟨r.next⟩, action)] := by
  have hnone : r.under ⟨r.next⟩ = [] := List.filter_eq_nil_iff.mpr fun x hx heq => by
    have hlt := hr x hx
    rw [beq_iff_eq.mp heq] at hlt
    exact Nat.lt_irrefl _ hlt
  have hfirst : (r.register action).2.under (r.register action).1 =
      (⟨r.next⟩, action) :: r.under ⟨r.next⟩ :=
    List.filter_cons_of_pos (beq_self_eq_true (⟨r.next⟩ : CleanupId))
  rw [hfirst, hnone]

end CleanupRegistry

namespace Engine

variable {e e' e₀ e₁ : Engine} {id : ObjectId} {name : String} {cleanup : CleanupId}
  {old : List Savepoint} {rows : RowSet} {k : Nat}

/-! ### Openings -/

/-- A statement is run, and a new iterator is there to go through its rows, with a cursor of its
own. The parameters of a plan may have brought new types into the cache. -/
structure OpensRows (e : Engine) (sql : String) (params : Row) (id : ObjectId) (name : String)
    (cleanup : CleanupId) (e' : Engine) : Prop where
  opens : ∃ types, (do
    let portal ← Serving.openPortal sql params none true
    Serving.newIterator portal : Serving Value) { e with types } =
      (.ok (.service (.nextRow id)), e')
  cursor : e'.object? id = some (.iterator { cursor := { name, cleanup := some cleanup } })

/-- The iterator that was answered has a cursor that is registered. -/
theorem opensRows_of_eq {sql : String} {params : Row} (types : TypeCache)
    (hopens : (do
      let portal ← Serving.openPortal sql params none true
      Serving.newIterator portal : Serving Value) { e with types } =
        (.ok (.service (.nextRow id)), e')) :
    ∃ name cleanup, e.OpensRows sql params id name cleanup e' := by
  have hran := hopens
  rw [run_bind] at hran
  split at hran
  next portal e₁ _ =>
    cases hran
    refine ⟨portal, ⟨e₁.cleanups.next⟩, ⟨types, hopens⟩, ?_⟩
    exact Array.getElem?_push_size
  · cases hran

/-- What `server.rows` answers. -/
theorem opensRows_openRows {call : Caller} {args : List Value}
    (hserve : Serving.serve call .openRows args e = (.ok [.service (.nextRow id)], e')) :
    ∃ sql name cleanup, Arguments.text (Arguments.nth args 0) = .ok sql ∧
      e.OpensRows sql [] id name cleanup e' := by
  obtain ⟨sql, e₁, hsql, hserve⟩ := run_bind_ok hserve
  obtain ⟨portal, e₂, hportal, hserve⟩ := run_bind_ok hserve
  obtain ⟨v, e₃, hmade, hserve⟩ := run_bind_ok hserve
  cases hserve
  obtain ⟨htext, rfl⟩ := ofOutcome_ok hsql
  have hopens : (do
      let portal ← Serving.openPortal sql [] none true
      Serving.newIterator portal : Serving Value) e = (.ok (.service (.nextRow id)), e') := by
    rw [run_bind, hportal]
    exact hmade
  obtain ⟨name, cleanup, hopens⟩ := opensRows_of_eq e.types hopens
  exact ⟨sql, name, cleanup, htext, hopens⟩

/-- What the rows of a plan answer. -/
theorem opensRows_planRows {call : Caller} {args : List Value}
    (hserve : Serving.serve call .planRows args e = (.ok [.service (.nextRow id)], e')) :
    ∃ plan p given params name cleanup, args.head? = some (.object .plan plan) ∧
      e.object? plan = some (.plan p) ∧ (Serving.bindParams p given e).1 = .ok params ∧
      e.OpensRows p.sql params id name cleanup e' := by
  obtain ⟨⟨plan, rest⟩, e₁, hown, hserve⟩ := run_bind_ok hserve
  obtain ⟨given, e₂, hgiven, hserve⟩ := run_bind_ok hserve
  obtain ⟨p, e₃, hplan, hserve⟩ := run_bind_ok hserve
  obtain ⟨params, e₄, hparams, hserve⟩ := run_bind_ok hserve
  obtain ⟨portal, e₅, hportal, hserve⟩ := run_bind_ok hserve
  obtain ⟨v, e₆, hmade, hserve⟩ := run_bind_ok hserve
  cases hserve
  obtain ⟨hhead, rfl⟩ := Serving.ownArguments_ok hown
  obtain ⟨-, rfl⟩ := ofOutcome_ok hgiven
  obtain ⟨hobject, rfl⟩ := Serving.planOf_ok hplan
  obtain ⟨bound, types, hbound⟩ := Serving.describes_bindParams p given e
  cases hparams.symm.trans hbound
  have hopens : (do
      let portal ← Serving.openPortal p.sql params none true
      Serving.newIterator portal : Serving Value) { e with types } =
        (.ok (.service (.nextRow id)), e') := by
    rw [run_bind, hportal]
    exact hmade
  obtain ⟨name, cleanup, hopens⟩ := opensRows_of_eq _ hopens
  exact ⟨plan, p, given, params, name, cleanup, hhead, hobject, by rw [hparams], hopens⟩

/-- What happens in an engine beside an iterator: it may do anything but change the iterator or the
entry of its cursor, or have the host change its portal. -/
structure Beside (id : ObjectId) (name : String) (cleanup : CleanupId) (old : List Savepoint)
    (e e' : Engine) : Prop where
  iterator : e'.object? id = e.object? id
  entry : e'.cleanups.under cleanup = e.cleanups.under cleanup
  options : e'.options = e.options
  host : ∃ ops, e'.host = e.host.performAll ops ∧ Host.SparesAll name old e.host ops

/-- The life of an iterator from its opening on: the engine at a later moment, and what the calls
have answered so far, each with the engine after it, the first call first. No savepoint of the
opening is rolled back to. -/
inductive Loop (id : ObjectId) (name : String) (cleanup : CleanupId) (start : Engine) :
    Engine → List (Outcome Value × Engine) → Prop where
  | opened : Loop id name cleanup start start []
  | ask {e e' : Engine} {given : List (Outcome Value × Engine)} {answer : Outcome Value}
    (h : Loop id name cleanup start e given) (hanswer : Serving.nextRow id e = (answer, e')) :
    Loop id name cleanup start e' (given ++ [(answer, e')])
  | beside {e e' : Engine} {given : List (Outcome Value × Engine)}
    (h : Loop id name cleanup start e given)
    (hbeside : Beside id name cleanup start.host.savepoints e e') :
    Loop id name cleanup start e' given

/-- The rows of a result are a new object. -/
theorem resultOf_spec (r : QueryResult) (hid : id.index < e.objects.size) :
    (Serving.resultOf r e).2.object? id = e.object? id ∧
      (Serving.resultOf r e).2.cleanups = e.cleanups ∧
      (Serving.resultOf r e).2.options = e.options ∧ (Serving.resultOf r e).2.host = e.host := by
  unfold Serving.resultOf
  cases r.rows with
  | none => exact ⟨rfl, rfl, rfl, rfl⟩
  | some rows =>
    by_cases hshown : r.kind = .select ∧ !rows.rows.isEmpty
    · simp only [if_pos hshown]
      refine ⟨?_, rfl, rfl, rfl⟩
      show (e.objects.push _)[id.index]? = _
      rw [Array.getElem?_push_lt hid, ← Array.getElem?_eq_getElem hid]
      rfl
    · simp only [if_neg hshown]
      exact ⟨rfl, rfl, rfl, rfl⟩

/-- A statement that a script runs is beside all iterators. -/
theorem beside_execute (hid : id.index < e.objects.size) (name : String) (cleanup : CleanupId)
    (old : List Savepoint) (sql : String) (params : Row) (readOnly : Bool) (limit : Nat) :
    Beside id name cleanup old e (Serving.execute sql params readOnly limit e).2 := by
  have hspares : Host.SparesAll name old e.host [.execute sql params readOnly limit] :=
    ⟨Host.spares_execute .., trivial⟩
  have hrun : Serving.onHost (fun h => h.execute sql params readOnly limit) e =
      ((e.host.execute sql params readOnly limit).1,
        { e with host := e.host.perform (.execute sql params readOnly limit) }) := rfl
  unfold Serving.execute
  rw [run_bind, hrun]
  cases (e.host.execute sql params readOnly limit).1 with
  | error f => exact ⟨rfl, rfl, rfl, _, rfl, hspares⟩
  | ok r =>
    show Beside id name cleanup old e (Serving.resultOf r
      { e with host := e.host.perform (.execute sql params readOnly limit) }).2
    obtain ⟨hobject, hcleanups, hoptions, hhost⟩ := resultOf_spec r (e :=
      { e with host := e.host.perform (.execute sql params readOnly limit) }) hid
    exact ⟨hobject, congrArg (·.under cleanup) hcleanups, hoptions,
      [.execute sql params readOnly limit], hhost, hspares⟩

/-! ### Where an iterator is -/

/-- The next row of an iterator is row `k`, or it is about to find that there are no more. Its queue
is what lies between row `k` and the position of its portal. -/
structure Within (e : Engine) (id : ObjectId) (name : String) (cleanup : CleanupId)
    (old : List Savepoint) (rows : RowSet) (k : Nat) (i : RowIterator) (p : Portal) : Prop where
  object : e.object? id = some (.iterator i)
  cursor : i.cursor = { name, cleanup := some cleanup }
  going : i.done = false
  handle : i.queue ≠ [] → i.handle.isSome
  size : i.queue.length ≤ e.options.fetchSize
  portal : e.host.portal? name = some p
  shelved : p.rows = rows
  le : k ≤ rows.rows.length
  position : k ≤ p.position
  queue : i.queue = (rows.rows.take p.position).drop k
  kept : e.host.Kept name old
  entry : ∃ action, e.cleanups.under cleanup = [(cleanup, action)]

/-- An iterator has answered nil, so more than all rows were asked for. -/
structure Over (e : Engine) (id : ObjectId) (name : String) (cleanup : CleanupId) (rows : RowSet)
    (k : Nat) (i : RowIterator) : Prop where
  object : e.object? id = some (.iterator i)
  ended : i.Ended
  queue : i.queue = []
  gone : e.host.portal? name = none
  entry : e.cleanups.under cleanup = []
  lt : rows.rows.length < k

/-- An iterator has been asked `k` times. -/
inductive Delivering (e : Engine) (id : ObjectId) (name : String) (cleanup : CleanupId)
    (old : List Savepoint) (rows : RowSet) (k : Nat) : Prop where
  | within (i : RowIterator) (p : Portal) (h : e.Within id name cleanup old rows k i p)
  | atEnd (i : RowIterator) (h : e.Over id name cleanup rows k i)

/-- The answer that is due after `k` calls, and the engine after it. -/
structure Answers (rows : RowSet) (k : Nat) (answer : Outcome Value) (e : Engine) : Prop where
  row : ∀ row, rows.rows[k]? = some row → e.Holds answer row
  none : rows.rows.length ≤ k → answer = .ok .nil

/-- What happens beside an iterator leaves it where it is. -/
theorem Delivering.beside (h : e.Delivering id name cleanup old rows k)
    (hbeside : Beside id name cleanup old e e') : e'.Delivering id name cleanup old rows k := by
  obtain ⟨ops, hhost, hspares⟩ := hbeside.host
  cases h with
  | within i p h =>
    obtain ⟨hportal, hkept⟩ := Host.portal_sparedAll hspares h.portal h.kept
    exact .within i p { h with
      object := hbeside.iterator.trans h.object
      size := hbeside.options ▸ h.size
      portal := hhost ▸ hportal
      kept := hhost ▸ hkept
      entry := hbeside.entry ▸ h.entry }
  | atEnd i h =>
    exact .atEnd i { h with
      object := hbeside.iterator.trans h.object
      gone := hhost ▸ Host.gone_sparedAll hspares h.gone
      entry := hbeside.entry.trans h.entry }

/-! ### One call -/

/-- What lies ahead starts with row `k`. -/
theorem ahead_cons {all rest : List Row} {row : Row} {position : Nat}
    (hqueue : row :: rest = (all.take position).drop k) :
    all[k]? = some row ∧ k < position ∧ k < all.length ∧
      rest = (all.take position).drop (k + 1) := by
  have hlt : k < (all.take position).length := by
    by_contra hle
    rw [List.drop_eq_nil_of_le (Nat.le_of_not_lt hle)] at hqueue
    cases hqueue
  have hboth := List.drop_eq_getElem_cons hlt
  obtain ⟨hrow, hrest⟩ := List.cons.inj (hqueue.trans hboth)
  rw [List.length_take, Nat.lt_min] at hlt
  refine ⟨?_, hlt.1, hlt.2, hrest⟩
  rw [List.getElem?_eq_getElem hlt.2, hrow, List.getElem_take]

/-- A call led from one place to the next, and answered what is due. -/
structure Proceeds (e : Engine) (id : ObjectId) (name : String) (cleanup : CleanupId)
    (old : List Savepoint) (rows : RowSet) (k : Nat) (answer : Outcome Value) (e' : Engine) :
    Prop where
  delivering : e'.Delivering id name cleanup old rows (k + 1)
  answers : Answers rows k answer e'
  options : e'.options = e.options

/-- A row that was fetched before. -/
theorem Within.proceeds_queued {i : RowIterator} {p : Portal}
    (h : e.Within id name cleanup old rows k i p) {row : Row} {rest : List Row}
    (hqueue : i.queue = row :: rest) :
    e.Proceeds id name cleanup old rows k (Serving.nextRow id e).1 (Serving.nextRow id e).2 := by
  obtain ⟨hrow, hposition, hlt, hrest⟩ := ahead_cons (hqueue.symm.trans h.queue)
  obtain ⟨handle, hhandle⟩ := Option.isSome_iff_exists.mp (h.handle (by simp [hqueue]))
  obtain ⟨answer, e', hout, hholds, hobject, hhost, hcleanups, hoptions⟩ :=
    handOut_spec h.object (fun i => { i with queue := rest }) handle rest (by rw [← hhandle]) row
  rw [nextRow_queued h.object hqueue hhandle, hout]
  -- the host is not asked, so only the queue is another one afterwards
  refine ⟨.within { i with handle := some handle, queue := rest } p ?_,
    ⟨fun row' hrow' => ?_, fun hend => ?_⟩, hoptions⟩
  · have hshorter : rest.length ≤ e.options.fetchSize := by
      have hsize := h.size
      rw [hqueue] at hsize
      exact Nat.le_of_succ_le hsize
    exact { h with
      object := hobject
      handle := fun _ => rfl
      size := hoptions ▸ hshorter
      portal := hhost ▸ h.portal
      le := hlt
      position := hposition
      queue := hrest
      kept := hhost ▸ h.kept
      entry := hcleanups ▸ h.entry }
  · cases hrow.symm.trans hrow'
    exact hholds
  · exact absurd hlt (Nat.not_lt.mpr hend)

/-- The host answers a batch from row `k` on, and the portal is at `p` then. -/
structure Batch (e : Engine) (name : String) (rows : RowSet) (k : Nat) (batch : List Row)
    (p : Portal) (host : Host) : Prop where
  fetched : e.host.fetch name .forward (Int64.ofNat e.options.fetchSize) =
    (.ok { layout := rows.layout, rows := batch }, host)
  portal : host.portal? name = some p
  savepoints : host.savepoints = e.host.savepoints
  shelved : p.rows = rows
  ahead : batch = (rows.rows.take p.position).drop k
  position : k ≤ p.position
  length : batch.length ≤ e.options.fetchSize
  last : batch = [] → k = rows.rows.length

/-- With an empty queue the portal stands in front of row `k`, or at the end of the rows. -/
theorem Within.batch {i : RowIterator} {p : Portal}
    (h : e.Within id name cleanup old rows k i p) (hsize : 1 ≤ e.options.fetchSize)
    (hword : e.options.fetchSize < 2 ^ 63) (hqueue : i.queue = []) :
    ∃ batch p' host, e.Batch name rows k batch p' host := by
  have hnone : (p.rows.rows.take p.position).drop k = [] := by
    rw [h.shelved, ← h.queue, hqueue]
  obtain ⟨hahead, hposition, hlength, hlast⟩ :=
    p.forward_ahead hsize (h.shelved ▸ h.le) h.position hnone
  have hforward : p.fetch .forward (Int64.ofNat e.options.fetchSize) =
      p.forward e.options.fetchSize := by
    show p.forward (Int64.ofNat e.options.fetchSize).toInt.toNat = _
    rw [Int64.toNat_toInt_ofNat hword]
  obtain ⟨host, hfetch, hportal, hsaved⟩ :=
    Host.fetch_open h.portal .forward (Int64.ofNat e.options.fetchSize)
  have hrows := (p.fetch_rows .forward (Int64.ofNat e.options.fetchSize)).trans h.shelved
  rw [hforward] at hfetch hportal hrows
  rw [h.shelved] at hahead hlast hfetch
  exact ⟨_, _, host, hfetch, hportal, hsaved, hrows, hahead, hposition, hlength, hlast⟩

/-- All rows were given before, and now the iterator ends. -/
theorem Within.proceeds_atEnd {i : RowIterator} {p p' : Portal} {host : Host}
    (h : e.Within id name cleanup old rows k i p) (hqueue : i.queue = [])
    (hbatch : e.Batch name rows k [] p' host) :
    e.Proceeds id name cleanup old rows k (Serving.nextRow id e).1 (Serving.nextRow id e).2 := by
  have hname : i.cursor.name = name := by rw [h.cursor]
  have hobject : ({ e with host } : Engine).object? id = some (.iterator i) := h.object
  obtain ⟨e', j, hfinish, hj, hended, hleft, hhost, hcleanups, hoptions⟩ :=
    finishIterator_spec hobject h.cursor
  obtain ⟨action, hentry⟩ := h.entry
  have hk := hbatch.last rfl
  rw [nextRow_batch h.object (.inl hqueue) h.going (hname.symm ▸ hbatch.fetched)]
  dsimp only
  rw [run_bind, hfinish]
  refine ⟨.atEnd j ⟨hj, hended, hleft.trans hqueue, ?_, ?_, ?_⟩, ⟨fun row hrow => ?_, fun _ => rfl⟩,
    hoptions⟩
  · have hclosed := Host.portal_closeCursor host name name
    rw [if_pos rfl] at hclosed
    exact (congrArg (Host.portal? · name) hhost).trans hclosed
  · have hunder := e.cleanups.under_unregister cleanup
    rw [hentry] at hunder
    exact (congrArg (·.under cleanup) hcleanups).trans hunder
  · rw [hk]
    exact Nat.lt_succ_self _
  · rw [hk, List.getElem?_eq_none (Nat.le_refl _)] at hrow
    cases hrow

/-- The first row of the batch is handed out, and the rest of it is the queue. -/
theorem Within.proceeds_row {i : RowIterator} {p p' : Portal} {host : Host} {row : Row}
    {rest : List Row} (h : e.Within id name cleanup old rows k i p) (hqueue : i.queue = [])
    (hbatch : e.Batch name rows k (row :: rest) p' host) :
    e.Proceeds id name cleanup old rows k (Serving.nextRow id e).1 (Serving.nextRow id e).2 := by
  -- the row is the first one ahead of the portal, the rest of the batch stays ahead of the iterator
  have hname : i.cursor.name = name := by rw [h.cursor]
  obtain ⟨hrow, hposition, hlt, hrest⟩ := ahead_cons hbatch.ahead
  obtain ⟨handle, arena, hmade⟩ := iteratorHandle_ok i rows.layout { e with host }
  have hobject : ({ e with host, arena } : Engine).object? id = some (.iterator i) := h.object
  obtain ⟨answer, e', hout, hholds, ho, hhost, hcleanups, hoptions⟩ :=
    handOut_spec hobject (fun i => { i with handle := some handle, queue := rest }) handle rest
      rfl row
  rw [nextRow_batch h.object (.inl hqueue) h.going (hname.symm ▸ hbatch.fetched)]
  dsimp only
  rw [run_bind, hmade]
  dsimp only
  rw [hout]
  have hsaved : e'.host.savepoints = e.host.savepoints :=
    (congrArg Host.savepoints hhost).trans hbatch.savepoints
  refine ⟨.within { i with handle := some handle, queue := rest } p' ?_,
    ⟨fun row' hrow' => ?_, fun hend => ?_⟩, hoptions⟩
  · exact {
      object := ho
      cursor := h.cursor
      going := h.going
      handle := fun _ => rfl
      size := hoptions ▸ Nat.le_of_succ_le hbatch.length
      portal := hhost ▸ hbatch.portal
      shelved := hbatch.shelved
      le := hlt
      position := hposition
      queue := hrest
      kept := fun s hs => h.kept s (hsaved ▸ hs)
      entry := hcleanups ▸ h.entry }
  · cases hrow.symm.trans hrow'
    exact hholds
  · exact absurd hlt (Nat.not_lt.mpr hend)

/-- Each call answers what is due, and leads to the next place. -/
theorem Delivering.proceeds (h : e.Delivering id name cleanup old rows k)
    (hsize : 1 ≤ e.options.fetchSize) (hword : e.options.fetchSize < 2 ^ 63) :
    e.Proceeds id name cleanup old rows k (Serving.nextRow id e).1 (Serving.nextRow id e).2 := by
  cases h with
  | within i p h =>
    cases hqueue : i.queue with
    | cons row rest => exact h.proceeds_queued hqueue
    | nil =>
      obtain ⟨batch, p', host, hbatch⟩ := h.batch hsize hword hqueue
      cases batch with
      | nil => exact h.proceeds_atEnd hqueue hbatch
      | cons row rest => exact h.proceeds_row hqueue hbatch
  | atEnd i h =>
    -- nothing happens any more
    rw [nextRow_ended h.object h.ended]
    refine ⟨.atEnd i { h with lt := Nat.lt_succ_of_lt h.lt },
      ⟨fun row hrow => ?_, fun _ => rfl⟩, rfl⟩
    rw [List.getElem?_eq_none (Nat.le_of_lt h.lt)] at hrow
    cases hrow

/-! ### Whole loops -/

/-- After the opening the iterator is in front of the first row. -/
theorem OpensRows.delivering {sql : String} {params : Row}
    (hgiven : ∀ x ∈ e.cleanups.entries, x.1.number < e.cleanups.next)
    (hopens : e.OpensRows sql params id name cleanup e')
    (hrows : e.host.answer? sql params = some rows) :
    e'.Delivering id name cleanup e'.host.savepoints rows 0 ∧ e'.options = e.options := by
  obtain ⟨opened, host, hopen, hportal⟩ := Host.openCursor_answer hrows
  obtain ⟨⟨types, hopens⟩, hcursor⟩ := hopens
  have hran : Serving.openPortal sql params none true { e with types } =
      (.ok opened, { e with host, types }) := Serving.run_onHost hopen
  rw [run_bind, hran] at hopens
  cases hopens
  -- the iterator is the newest object
  have hnewest : (e.objects.push (.iterator { cursor :=
      { name := opened, cleanup := some ⟨e.cleanups.next⟩ } }))[e.objects.size]? =
        some (.iterator { cursor := { name, cleanup := some cleanup } }) := hcursor
  rw [Array.getElem?_push_size] at hnewest
  cases hnewest
  refine ⟨.within _ _ {
    object := hcursor
    cursor := rfl
    going := rfl
    handle := fun hne => absurd rfl hne
    size := Nat.zero_le _
    portal := hportal
    shelved := rfl
    le := Nat.zero_le _
    position := Nat.le_refl _
    queue := rfl
    kept := fun s hs => .inl hs
    entry := ⟨_, CleanupRegistry.under_register hgiven _⟩ }, rfl⟩

/-- What a loop has seen when the iterator has been asked `given.length` times. -/
structure Delivered (rows : RowSet) (id : ObjectId) (name : String) (cleanup : CleanupId)
    (given : List (Outcome Value × Engine)) (e : Engine) : Prop where
  /-- The calls give the rows in order, as tuples that can only be read, and then nil. -/
  answers : ∀ k answer, given[k]? = some answer → Answers rows k answer.1 answer.2
  /-- There are never more rows in the queue than a batch has. -/
  queue : ∃ i, e.object? id = some (.iterator i) ∧ i.queue.length ≤ e.options.fetchSize
  /-- From the first nil on the portal is closed, and the cursor has left the registry. -/
  closed : rows.rows.length < given.length →
    e.host.hasPortal name = false ∧ e.cleanups.contains cleanup = false

theorem Loop.steps {given : List (Outcome Value × Engine)}
    (hloop : Loop id name cleanup e₁ e given)
    (hstart : e₁.Delivering id name cleanup e₁.host.savepoints rows 0)
    (hsize : 1 ≤ e₁.options.fetchSize) (hword : e₁.options.fetchSize < 2 ^ 63) :
    e.Delivering id name cleanup e₁.host.savepoints rows given.length ∧
      e.options = e₁.options ∧
      ∀ k answer, given[k]? = some answer → Answers rows k answer.1 answer.2 := by
  induction hloop with
  | opened =>
    refine ⟨hstart, rfl, fun k answer hk => ?_⟩
    cases hk
  | @ask e e' given answer _ hanswer ih =>
    obtain ⟨hplace, hoptions, hbefore⟩ := ih
    have hcall := hplace.proceeds (hoptions ▸ hsize) (hoptions ▸ hword)
    rw [hanswer] at hcall
    refine ⟨?_, hcall.options.trans hoptions, fun k answer' hk => ?_⟩
    · rw [List.length_append]
      exact hcall.delivering
    · -- the answers before this one, this one, and none behind it
      rcases Nat.lt_trichotomy k given.length with hlt | heq | hgt
      · rw [List.getElem?_append_left hlt] at hk
        exact hbefore k answer' hk
      · subst heq
        rw [List.getElem?_concat_length] at hk
        cases hk
        exact hcall.answers
      · rw [List.getElem?_eq_none (by simp; omega)] at hk
        cases hk
  | beside _ hbeside ih =>
    obtain ⟨hplace, hoptions, hbefore⟩ := ih
    exact ⟨hplace.beside hbeside, hbeside.options.trans hoptions, hbefore⟩

/-- Whatever happens beside it, an iterator gives the rows of its opening in order, each of them
once, and then nil. -/
theorem Loop.delivers {r : Engine} {stack : List FrameId} {ended : List (FrameId × FrameExit)}
    {sql : String} {params : Row} {given : List (Outcome Value × Engine)} (hr : r.Reachable)
    (hcourse : Course r [] e₀ stack ended) (hopens : e₀.OpensRows sql params id name cleanup e₁)
    (hrows : e₀.host.answer? sql params = some rows) (hsize : 1 ≤ e₀.options.fetchSize)
    (hword : e₀.options.fetchSize < 2 ^ 63) (hloop : Loop id name cleanup e₁ e given) :
    Delivered rows id name cleanup given e := by
  have hgiven := (hcourse.sound hr.sound).registered.given
  obtain ⟨hstart, hoptions⟩ := hopens.delivering hgiven hrows
  obtain ⟨hplace, hsame, hanswers⟩ :=
    hloop.steps hstart (hoptions ▸ hsize) (hoptions ▸ hword)
  refine ⟨hanswers, ?_, fun hlt => ?_⟩
  · cases hplace with
    | within i p h => exact ⟨i, h.object, h.size⟩
    | atEnd i h => exact ⟨i, h.object, by rw [h.queue]; exact Nat.zero_le _⟩
  · cases hplace with
    | within i p h => exact absurd hlt (Nat.not_lt.mpr h.le)
    | atEnd i h =>
      have hgone : e.host.hasPortal name = false := by
        unfold Host.hasPortal
        rw [h.gone]
        rfl
      exact ⟨hgone, CleanupRegistry.not_contains_of_under h.entry⟩

/-! ### A loop that empties its table -/

/-- A new engine with the given batches, on a host with a table of two rows, a statement that reads
it and one that removes its rows. -/
def stockroom (fetchSize : Nat) : Engine :=
  { bare { fetchSize } Host.new with
    host := shelf.perform
      (.defineStatement "del" { kind := .delete, action := .deleteAll "items" }) }

/-- A script has an iterator over the rows. -/
def browsed (fetchSize : Nat) : Engine :=
  (Serving.serve libraryCaller .openRows [.ofText "sel"] (stockroom fetchSize)).2

/-- The script asks for the first row. -/
def askedOnce (fetchSize : Nat) : Outcome Value × Engine :=
  Serving.nextRow ⟨0⟩ (browsed fetchSize)

/-- Then it removes all rows from the table. -/
def emptied : Engine := (Serving.execute "del" [] false 0 (askedOnce 1).2).2

/-- It goes on with the loop to its end. -/
def askedTwice : Outcome Value × Engine := Serving.nextRow ⟨0⟩ emptied

@[inherit_doc askedTwice]
def askedThrice : Outcome Value × Engine := Serving.nextRow ⟨0⟩ askedTwice.2

/-- The rows of the table. -/
def shelfRows : RowSet :=
  { layout := shelfLayout, rows := [[some (.int4 1)], [some (.int4 2)]] }

theorem stockroom_reachable {fetchSize : Nat}
    (hstart : start { fetchSize } Host.new = (.ok (bare { fetchSize } Host.new), Host.new)) :
    (stockroom fetchSize).Reachable := by
  have hnew : (bare { fetchSize } Host.new).Reachable := .start ⟨rfl, rfl⟩ hstart
  exact hnew.host ⟨rfl, rfl⟩

/-- The second row is there though the table is empty by then. -/
theorem delivers_emptied :
    emptied.host.tableRows "items" = [] ∧
      Delivered shelfRows ⟨0⟩ "<unnamed portal 1>" ⟨0⟩ [askedOnce 1, askedTwice, askedThrice]
        askedThrice.2 := by
  have hopens : (stockroom 1).OpensRows "sel" [] ⟨0⟩ "<unnamed portal 1>" ⟨0⟩ (browsed 1) :=
    ⟨⟨_, rfl⟩, rfl⟩
  have hsize : (⟨0⟩ : ObjectId).index < (askedOnce 1).2.objects.size := by decide
  have hbeside : Beside ⟨0⟩ "<unnamed portal 1>" ⟨0⟩ (browsed 1).host.savepoints (askedOnce 1).2
      emptied := beside_execute hsize _ _ _ "del" [] false 0
  have hloop := ((Loop.opened.ask rfl).beside hbeside |>.ask rfl).ask rfl
  exact ⟨rfl,
    Loop.delivers (stockroom_reachable rfl) .refl hopens rfl (by decide) (by decide) hloop⟩

/-- With a batch size that is no signed word an iterator does not deliver. -/
theorem nextRow_not_always_delivers :
    ¬ ∀ (r e₀ e₁ e : Engine) (stack : List FrameId) (ended : List (FrameId × FrameExit))
      (sql : String) (params : Row) (id : ObjectId) (name : String) (cleanup : CleanupId)
      (rows : RowSet) (given : List (Outcome Value × Engine)), r.Reachable →
      Course r [] e₀ stack ended → e₀.OpensRows sql params id name cleanup e₁ →
      e₀.host.answer? sql params = some rows → 1 ≤ e₀.options.fetchSize →
      Loop id name cleanup e₁ e given → Delivered rows id name cleanup given e := by
  intro hdelivers
  have hopens : (stockroom (2 ^ 63)).OpensRows "sel" [] ⟨0⟩ "<unnamed portal 1>" ⟨0⟩
      (browsed (2 ^ 63)) := ⟨⟨_, rfl⟩, rfl⟩
  have hloop : Loop ⟨0⟩ "<unnamed portal 1>" ⟨0⟩ (browsed (2 ^ 63)) (askedOnce (2 ^ 63)).2
      [askedOnce (2 ^ 63)] := Loop.opened.ask rfl
  have hdelivered := hdelivers _ _ _ _ _ _ _ _ _ _ _ shelfRows _ (stockroom_reachable rfl) .refl
    hopens rfl (by decide) hloop
  obtain ⟨o, t, handle, hanswer, -⟩ := (hdelivered.answers 0 _ rfl).row _ rfl
  have hnil : (askedOnce (2 ^ 63)).1 = .ok .nil := rfl
  cases hnil.symm.trans hanswer

end Engine

end StoredRoutine
