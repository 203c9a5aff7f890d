import StoredRoutine.Engine.Queries
import StoredRoutine.Proofs.Catalog.Resolution
import StoredRoutine.Proofs.Host.TypeNames

/-!
# `StoredRoutine.Proofs.Engine.Parameters`: the types of parameters by name

A plan is made with a list of type names, and its parameters have the types that the host says the
names stand for (`paramTypes_ok_iff`).

Folding a second time changes nothing. A type that was defined under a name which folding changes is
therefore the type of no name at all, and no plan has a parameter of it. A type that was defined
under a folded name has that name until the name is defined again. The law `NamedType` says this of
every definition of a run, along with what holds of its identifier.
-/

set_option autoImplicit false

namespace StoredRoutine

open Script (TableId)

/-- A table lists names: its entries are read as these texts, one after the other. -/
structure Engine.Lists (e : Engine) (types : TableId) (names : List String) : Prop where
  length : (e.heap.length types).1 = names.length
  entry : ∀ i name, names[i]? = some name →
    Arguments.text ((e.heap.length types).2.rawGet types (.ofNat (i + 1))) = .ok name

namespace Serving

variable {e : Engine} {types : TableId} {names : List String} {ids : List TypeId}

theorem run_modifyGet {α : Type} (f : Engine → α × Engine) (e : Engine) :
    (modifyGet f : Serving α) e = (.ok (f e).1, (f e).2) := rfl

theorem run_ofOutcome {α : Type} (o : Outcome α) (e : Engine) : ofOutcome o e = (o, e) := by
  cases o <;> rfl

/-- One search for each name of a list. The first one that fails ends it. -/
theorem mapM_ok_iff {α : Type} {search : Nat → Serving α} {find : String → Option α}
    {found : List α} {first : Nat}
    (hsearch : ∀ i name, names[i]? = some name →
      ∃ r, search (first + i) e = (r, e) ∧ ∀ a, r = .ok a ↔ find name = some a) :
    ((List.range' first names.length).mapM search e).1 = .ok found ↔
      names.map find = found.map some := by
  induction names generalizing first found with
  | nil =>
    cases found with
    | nil => exact iff_of_true rfl rfl
    | cons a later => exact iff_of_false (fun hok => by cases hok) fun heq => by cases heq
  | cons name rest ih =>
    have hrest : ∀ i name, rest[i]? = some name →
        ∃ r, search (first + 1 + i) e = (r, e) ∧ ∀ a, r = .ok a ↔ find name = some a := by
      intro i other hget
      rw [Nat.add_assoc, Nat.add_comm 1]
      exact hsearch (i + 1) other hget
    obtain ⟨now, hnow, hfind⟩ := hsearch 0 name rfl
    -- nothing has changed when the search goes on with the next name
    have hmore (more : List α) := @ih more (first + 1) hrest
    rw [List.length_cons, List.range'_succ, List.mapM_cons, run_bind,
      show search first e = (now, e) from hnow]
    cases found with
    | nil =>
      refine iff_of_false (fun hok => ?_) (List.cons_ne_nil _ _)
      cases now with
      | error f => cases hok
      | ok a =>
        dsimp only at hok
        rw [run_bind] at hok
        split at hok <;> cases hok
    | cons a later =>
      rw [List.map_cons, List.map_cons, List.cons.injEq, ← hfind, ← hmore later]
      cases now with
      | error f => exact iff_of_false (fun hok => by cases hok) fun hok => by cases hok.1
      | ok b =>
        dsimp only
        rw [run_bind]
        obtain ⟨r, s⟩ := (List.range' (first + 1) rest.length).mapM search e
        cases r with
        | error f => exact iff_of_false (fun hok => by cases hok) fun hok => by cases hok.2
        | ok more =>
          show (Except.ok (b :: more) : Outcome (List α)) = .ok (a :: later) ↔
            Except.ok b = Except.ok a ∧ Except.ok more = Except.ok later
          rw [Except.ok.injEq, Except.ok.injEq, Except.ok.injEq, List.cons.injEq]

/-- A plan gets the types that its names stand for. If a name stands for none, it is not made. -/
theorem paramTypes_ok_iff (hl : e.Lists types names) :
    (paramTypes types e).1 = .ok ids ↔ names.map e.host.typeId? = ids.map some := by
  unfold paramTypes
  rw [run_bind, run_modifyGet]
  dsimp only
  rw [run_get_bind]
  dsimp only
  rw [hl.length]
  refine mapM_ok_iff fun i name hget => ?_
  rw [run_bind, Nat.add_comm, hl.entry i name hget, run_ofOutcome]
  dsimp only
  cases e.host.typeId? name with
  | some id => exact ⟨.ok id, rfl, fun a => by rw [Except.ok.injEq, Option.some.injEq]⟩
  | none =>
    refine ⟨.error _, rfl, fun a => iff_of_false (fun hok => ?_) fun hsome => ?_⟩
    · cases hok
    · cases hsome

end Serving

namespace Host

/-! ### The law of names -/

/-- What holds of a definition in a run of a new host. `op` defines the type of the identifier `id`
under the name `name`. -/
structure NamedType (before : List HostOperation) (op : HostOperation) (later : List HostOperation)
    (name : String) (id : TypeId) : Prop where
  /-- No builtin type has the identifier. -/
  notBuiltin : new.lookupType id = none
  /-- No operation has answered the identifier before. -/
  fresh : ∀ front o back, before = front ++ o :: back →
    (new.performAll front).answeredId? o ≠ some id
  /-- What was found by an identifier is found by it from then on. -/
  kept : ∀ i e, (new.performAll before).lookupType i = some e →
    (new.performAll (before ++ op :: later)).lookupType i = some e
  /-- So is the new type. -/
  entered : ∃ e, e.name = name ∧ e.id = id ∧
    (new.performAll (before ++ op :: later)).lookupType id = some e
  /-- A text stands for the type if it is folded to the name, until the name is defined again. -/
  named : ∀ text, (new.performAll (before ++ op :: later)).typeId? text = some id ↔
    (new.performAll (before ++ [op])).Current later name text
  /-- The same texts name the type of a parameter. -/
  planned : ∀ (e : Engine) types text, e.host = new.performAll (before ++ op :: later) →
    e.Lists types [text] → ((Serving.paramTypes types e).1 = .ok [id] ↔
      (new.performAll (before ++ [op])).Current later name text)
  /-- If folding changes the name, no text does. -/
  unnamed : Text.folded name ≠ name →
    ∀ text, (new.performAll (before ++ op :: later)).typeId? text ≠ some id

/-- Whatever a new host was told to do, its names obey the law, unless identifiers run out. -/
theorem namedType_performAll {before later : List HostOperation} {op : HostOperation}
    {name : String} {id : TypeId} (hdef : (new.performAll before).defined? op = some (name, id))
    (hroom : new.Room (before ++ op :: later)) : NamedType before op later name id := by
  have hpassed := passed_new.performAll hroom
  have hleft := hroom.later
  obtain ⟨e, hname, hid, henters⟩ := enters_perform hdef
  have hnext : id = (new.performAll before).nextId := by rw [← hid, henters.id]
  have hrun : new.performAll (before ++ op :: later) =
      ((new.performAll before).perform op).performAll later := performAll_append _ _ _
  have hnow : new.performAll (before ++ [op]) = (new.performAll before).perform op :=
    performAll_append _ _ _
  -- what the host finds later depends on the definitions since this one only
  have hnamed : ∀ text, (new.performAll (before ++ op :: later)).typeId? text = some id ↔
      (new.performAll (before ++ [op])).Current later name text := by
    intro text
    rw [hrun, hnow]
    exact hpassed.typeId?_iff_current hdef hleft text
  exact {
    notBuiltin := by
      rw [Option.eq_none_iff_forall_ne_some]
      intro old hlookup
      have holder := passed_new.lookupType_lt hlookup
      -- identifiers are given out in ascending order, so an older type has a lesser one
      rw [hnext, hroom.initial.toNat_nextId] at holder
      omega
    fresh := by
      rintro front o back rfl
      rw [hnext]
      exact hroom.initial.answeredId?_ne
    kept := by
      intro i old hlookup
      rw [performAll_append]
      exact hpassed.lookupType_performAll hleft hlookup
    entered := by
      refine ⟨e, hname, hid, ?_⟩
      rw [hrun]
      refine (hpassed.perform hleft).lookupType_performAll hleft.step.2 ?_
      unfold lookupType
      rw [henters.types, hid, List.lookup_cons_self]
    named := hnamed
    planned := by
      intro engine types text hhost hlists
      rw [Serving.paramTypes_ok_iff hlists, hhost, ← hnamed text]
      simp
    unnamed := fun hfolded text hfound =>
      not_current_of_folded_ne hfolded text ((hnamed text).mp hfound) }

/-- An enum under a name with a capital letter, the type of its arrays, and a table under the same
name in small letters. -/
def moods : List HostOperation :=
  [.defineEnum "Mood" ["ok"], .defineArray 16384, .defineTable "mood" []]

theorem namedType_performAll_moods :
    ((new.performAll moods).defined? (.defineDomain "mood" Scalar.text.id (-1)) =
        some ("mood", 16387) ∧
      new.Room (moods ++ .defineDomain "mood" Scalar.text.id (-1) :: [.defineEnum "MOOD" []])) ∧
    NamedType moods (.defineDomain "mood" Scalar.text.id (-1)) [.defineEnum "MOOD" []] "mood"
      16387 :=
  ⟨⟨by decide, by decide⟩, namedType_performAll (by decide) (by decide)⟩

/-- A type whose name has a capital letter cannot be found by the name that it was given. -/
theorem capital_not_found :
    (new.defineEnum "Mood" ["ok"]).2.typeId? "Mood" ≠ some (new.defineEnum "Mood" ["ok"]).1 := by
  decide

end Host

end StoredRoutine
