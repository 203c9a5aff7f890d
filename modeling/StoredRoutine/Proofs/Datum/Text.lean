import StoredRoutine.Datum.Text
import StoredRoutine.Proofs.Datum.Numeric

/-!
# `StoredRoutine.Proofs.Datum.Text`: what input makes is of its type

`IsBase` are the values of the base types: each scalar type has one kind of value, and the types of
texts and exact decimals have modifiers that their values fit. Every text that is read as a value of
a base type becomes one of these (`isBase_ofText`).
-/

set_option autoImplicit false

namespace StoredRoutine.Datum

/-- The values of a base type under a modifier. `varchar(n)` and `char(n)` have the modifier
`n + 4`. A type that is none of the known scalar types has its values as texts. -/
def IsBase (m : Int32) : Option Scalar → Datum → Prop
  | some .bool, .bool _ => True
  | some .int2, .int2 _ => True
  | some .int4, .int4 _ => True
  | some .int8, .int8 _ => True
  | some .float4, .float4 _ => True
  | some .float8, .float8 _ => True
  | some .text, .text _ => True
  | some .bytea, .bytea _ => True
  | some .json, .json _ => True
  | some .refcursor, .refcursor _ => True
  | some .varchar, .text s => ∀ n : Nat, m.toInt = n + 4 → s.length ≤ n
  | some .bpchar, .text s => ∀ n : Nat, m.toInt = n + 4 → s.length = n
  | some .numeric, .numeric s => Numeric.Fits m s
  | none, .other _ => True
  | _, _ => False

/-! ### Texts of limited length -/

theorem charLength?_eq {m : Int32} {n : Nat} (hm : m.toInt = n + 4) : charLength? m = some n := by
  have hlow : ¬ m < 4 := by
    rw [Int32.lt_iff_toInt_lt, hm]
    show ¬ (_ < (4 : Int))
    omega
  unfold charLength?
  rw [if_neg hlow, hm]
  simp

theorem length_cutSpaces? {max : Nat} {text cut : String} (h : cutSpaces? max text = some cut) :
    cut.toList.length ≤ max := by
  unfold cutSpaces? at h
  simp only at h
  split at h
  · obtain rfl := Option.some.inj h
    rw [String.toList_ofList, List.length_take]
    exact Nat.min_le_left _ _
  · exact nomatch h

theorem length_varcharOfText {text s : String} {m : Int32} {n : Nat} (hm : m.toInt = n + 4)
    (h : varcharOfText text m = .ok s) : s.length ≤ n := by
  unfold varcharOfText at h
  rw [charLength?_eq hm] at h
  simp only at h
  split at h
  next cut hcut =>
    obtain rfl := Except.ok.inj h
    rw [← String.length_toList]
    exact length_cutSpaces? hcut
  · exact nomatch h

theorem length_bpcharOfText {text s : String} {m : Int32} {n : Nat} (hm : m.toInt = n + 4)
    (h : bpcharOfText text m = .ok s) : s.length = n := by
  unfold bpcharOfText at h
  rw [charLength?_eq hm] at h
  simp only at h
  split at h
  next cut hcut =>
    obtain rfl := Except.ok.inj h
    have hshort := length_cutSpaces? hcut
    rw [← String.length_toList, String.toList_ofList, List.length_append, List.length_replicate]
    omega
  · exact nomatch h

/-! ### Input -/

theorem ok_of_map_eq_ok {α β : Type} {x : Outcome α} {f : α → β} {b : β}
    (h : x.map f = .ok b) : ∃ a, x = .ok a ∧ f a = b := by
  cases x with
  | error e => exact nomatch h
  | ok a => exact ⟨a, rfl, Except.ok.inj h⟩

theorem ok_of_bind_eq_ok {α β : Type} {x : Outcome α} {f : α → Outcome β} {b : β}
    (h : (x >>= f) = .ok b) : ∃ a, x = .ok a ∧ f a = .ok b := by
  cases x with
  | error e => exact nomatch h
  | ok a => exact ⟨a, rfl, h⟩

theorem some_of_orFail_eq_ok {α β : Type} {f : Failure} {x : Option α} {g : α → β} {b : β}
    (h : orFail f (x.map g) = .ok b) : ∃ a, g a = b := by
  cases x with
  | none => exact nomatch h
  | some a => exact ⟨a, Except.ok.inj h⟩

/-- What is read as a value of a scalar type is one. -/
theorem isBase_scalarOfText {s : Scalar} {name text : String} {m : Int32} {d : Datum}
    (h : scalarOfText s name text m = .ok d) : IsBase m (some s) d := by
  cases s <;> simp only [scalarOfText] at h
  -- three types have modifiers; the others only have their kind of value
  case numeric =>
    obtain ⟨result, hresult, rfl⟩ := ok_of_map_eq_ok h
    exact Numeric.fits_ofText hresult
  case varchar =>
    obtain ⟨result, hresult, rfl⟩ := ok_of_map_eq_ok h
    exact fun n hm => length_varcharOfText hm hresult
  case bpchar =>
    obtain ⟨result, hresult, rfl⟩ := ok_of_map_eq_ok h
    exact fun n hm => length_bpcharOfText hm hresult
  case json =>
    split at h
    · obtain rfl := Except.ok.inj h
      trivial
    · exact nomatch h
  case text | refcursor =>
    obtain rfl := Except.ok.inj h
    trivial
  all_goals
    obtain ⟨a, rfl⟩ := some_of_orFail_eq_ok h
    trivial

/-- What is read as a value of a base type is one. -/
theorem isBase_ofText {type : TypeDescriptor} {text : String} {m : Int32} {d : Datum}
    (hkind : type.kind = .base) (h : ofText type text m = .ok d) :
    IsBase m (Scalar.ofId? type.id) d := by
  unfold ofText at h
  rw [hkind] at h
  simp only at h
  cases hscalar : Scalar.ofId? type.id with
  | none =>
    rw [hscalar] at h
    obtain rfl := Except.ok.inj h
    trivial
  | some s =>
    rw [hscalar] at h
    exact isBase_scalarOfText h

end StoredRoutine.Datum
