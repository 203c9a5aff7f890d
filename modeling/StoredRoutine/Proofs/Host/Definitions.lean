import StoredRoutine.Host.Basic
import StoredRoutine.Proofs.Catalog.Resolution

/-!
# `StoredRoutine.Proofs.Host.Definitions`: catalogs made by definitions

`Host.Defined` are the hosts that come from a new one by defining types. Their catalogs enter each
type under its own identifier, and the identifiers of enums begin where those of the builtin types
end (`Defined.entry`, `Defined.enum_id`).
-/

set_option autoImplicit false

namespace StoredRoutine.Host

/-- A new host in which types have been defined, as long as the counter of identifiers has not come
back to the builtin ones. -/
inductive Defined : Host → Prop
  | new : Defined Host.new
  | enum {h : Host} (hd : Defined h) (hid : firstId ≤ h.nextId) (name : String)
      (labels : List String) : Defined (h.defineEnum name labels).2
  | domain {h : Host} (hd : Defined h) (hid : firstId ≤ h.nextId) (name : String) (base : TypeId)
      (typeMod : Int32) : Defined (h.defineDomain name base typeMod).2
  | composite {h : Host} (hd : Defined h) (hid : firstId ≤ h.nextId) (name : String)
      (attributes : List Attribute) : Defined (h.defineComposite name attributes).2
  | array {h : Host} (hd : Defined h) (hid : firstId ≤ h.nextId) (element : TypeId) :
      Defined (h.defineArray element).2
  | table {h : Host} (hd : Defined h) (hid : firstId ≤ h.nextId) (name : String)
      (attributes : List Attribute) : Defined (h.defineTable name attributes).2

/-- Each type is entered under its own identifier, and no enum under that of a builtin type. -/
def Numbered (h : Host) : Prop :=
  ∀ p ∈ h.types, p.2.id = p.1 ∧ (p.2.typeClass = .enum → firstId ≤ p.1)

/-- Adding a type keeps the numbering, if the type is no enum or has a new identifier. -/
theorem Numbered.addType {h : Host} (hn : h.Numbered) {e : Catalog.Entry}
    (he : e.typeClass = .enum → firstId ≤ e.id) : (h.addType e).Numbered := by
  intro p hp
  rcases List.mem_cons.mp hp with rfl | hp
  · exact ⟨rfl, he⟩
  · exact hn p hp

/-- Other names do not matter for the numbering. -/
theorem Numbered.foldl_addName {h : Host} (hn : h.Numbered) (l : List (String × TypeId)) :
    (l.foldl (fun h a => h.addName a.1 a.2) h).Numbered := by
  induction l generalizing h with
  | nil => exact hn
  | cons a rest ih => exact ih hn

/-- The builtin types are no enums. -/
theorem Numbered.foldl_addBuiltin {h : Host} (hn : h.Numbered) (l : List Builtin) :
    (l.foldl addBuiltin h).Numbered := by
  induction l generalizing h with
  | nil => exact hn
  | cons b rest ih =>
    have hscalar := hn.addType (e := .scalar b.scalar.id b.name b.len b.byValue b.align)
      fun h => nomatch h
    exact ih (hscalar.addType (e := .array b.arrayId ("_" ++ b.name) b.scalar.id b.align)
      fun h => nomatch h)

/-- A new host is numbered. -/
theorem numbered_new : Host.new.Numbered := by
  have hblank : blank.Numbered := fun p hp => absurd hp List.not_mem_nil
  have hbuiltins := hblank.foldl_addBuiltin builtins
  have hvoid := hbuiltins.addType (e := .pseudo TypeId.void "void") fun h => nomatch h
  have htrigger := hvoid.addType (e := .pseudo TypeId.trigger "trigger") fun h => nomatch h
  have hrecord := htrigger.addType (e := .pseudo TypeId.record "record") fun h => nomatch h
  have hrecords := hrecord.addType (e := .array 2287 "_record" TypeId.record .double)
    fun h => nomatch h
  exact hrecords.foldl_addName aliases

/-- Every defined host is numbered. -/
theorem Defined.numbered {h : Host} (hd : h.Defined) : h.Numbered := by
  induction hd with
  | new => exact numbered_new
  | enum _ hid name labels ih => exact Numbered.addType ih fun _ => hid
  | domain _ hid name base typeMod ih =>
    unfold defineDomain
    refine Numbered.addType ih fun hclass => ?_
    split at hclass <;> exact nomatch hclass
  | composite _ hid name attributes ih => exact Numbered.addType ih fun h => nomatch h
  | array _ hid element ih =>
    unfold defineArray
    refine Numbered.addType ih fun hclass => ?_
    split at hclass <;> exact nomatch hclass
  | table _ hid name attributes ih => exact Numbered.addType ih fun h => nomatch h

/-- A type that is found has the identifier that was asked for. -/
theorem Defined.entry {h : Host} (hd : h.Defined) {id : TypeId} {e : Catalog.Entry}
    (he : h.lookupType id = some e) : e.id = id ∧ (e.typeClass = .enum → firstId ≤ id) := by
  have hmem : (id, e) ∈ h.types := by
    have hlookup : h.types.lookup id = some e := he
    generalize h.types = types at hlookup
    induction types with
    | nil => exact nomatch hlookup
    | cons p rest ih =>
      rw [List.lookup_cons] at hlookup
      split at hlookup
      · rename_i heq
        obtain rfl := Option.some.inj hlookup
        rw [eq_of_beq heq]
        exact List.mem_cons_self
      · exact List.mem_cons_of_mem p (ih hlookup)
  exact hd.numbered (id, e) hmem

/-- The identifier of an enum is none of a builtin type. -/
theorem Defined.enum_id {h : Host} (hd : h.Defined) {id : TypeId} {type : TypeDescriptor}
    {labels : List String} (hresolve : TypeCache.resolve h.catalog id = .ok type)
    (hkind : type.kind = .enum labels) : firstId ≤ type.id := by
  unfold TypeCache.resolve catalog at hresolve
  cases he : h.lookupType id with
  | none =>
    rw [he] at hresolve
    exact nomatch hresolve
  | some e =>
    rw [he] at hresolve
    obtain ⟨hid, hentry⟩ := Catalog.Entry.describe_ok hresolve
    obtain ⟨hown, henum⟩ := hd.entry he
    have hclass : e.typeClass = .enum := by
      rw [hkind] at hentry
      unfold Catalog.Entry.kind at hentry
      -- the other classes of types are never described as an enum
      cases hc : e.typeClass with
      | enum => rfl
      | base =>
        simp only [hc] at hentry
        split at hentry
        · split at hentry <;> exact nomatch hentry
        · exact nomatch hentry
      | domain =>
        simp only [hc] at hentry
        split at hentry <;> exact nomatch hentry
      | composite =>
        simp only [hc] at hentry
        exact nomatch hentry
      | pseudo =>
        simp only [hc] at hentry
        exact nomatch hentry
    rw [hid, hown]
    exact henum hclass

end StoredRoutine.Host
