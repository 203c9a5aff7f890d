import StoredRoutine.Proofs.Script.Guard
import StoredRoutine.Script.Library.Globals

/-!
# `StoredRoutine.Proofs.Script.Library`: the library only moves foreign values

What a function of the library answers is made of its arguments, of values in the heap, and of
values that scripts can make on their own. So a property that is innate and that the arguments
and the heap have, the answer and the heap after it have, too (`apply_holds`).
-/

set_option autoImplicit false

namespace StoredRoutine.Script

variable {Q : Value → Prop}

/-! ### Lists of values -/

theorem AllOf.nil : AllOf Q [] := List.forall_mem_nil Q

theorem AllOf.cons {v : Value} {vs : List Value} (hv : Q v) (hvs : AllOf Q vs) :
    AllOf Q (v :: vs) :=
  List.forall_mem_cons.mpr ⟨hv, hvs⟩

theorem AllOf.single {v : Value} (hv : Q v) : AllOf Q [v] := AllOf.cons hv AllOf.nil

theorem AllOf.append {vs ws : List Value} (hvs : AllOf Q vs) (hws : AllOf Q ws) :
    AllOf Q (vs ++ ws) :=
  List.forall_mem_append.mpr ⟨hvs, hws⟩

theorem AllOf.headD (own : Innate Q) {vs : List Value} (hvs : AllOf Q vs) : Q (vs.headD .nil) := by
  cases vs with
  | nil => exact own _ rfl
  | cons v rest => exact hvs v List.mem_cons_self

theorem AllOf.tail {vs : List Value} (hvs : AllOf Q vs) : AllOf Q vs.tail :=
  fun v hv => hvs v (List.mem_of_mem_tail hv)

theorem AllOf.drop {vs : List Value} (hvs : AllOf Q vs) (n : Nat) : AllOf Q (vs.drop n) :=
  fun v hv => hvs v (List.mem_of_mem_drop hv)

theorem AllOf.getD (own : Innate Q) {vs : List Value} (hvs : AllOf Q vs) (i : Nat) :
    Q (vs.getD i .nil) := by
  rw [List.getD_eq_getElem?_getD]
  cases hi : vs[i]? with
  | none => exact own _ rfl
  | some v => exact hvs v (List.mem_of_getElem? hi)

namespace Library

section Answers

variable {α β : Type} {R : α → Prop} {S : β → Prop}

/-- An answer has a property, unless it is a fault. -/
def Gives (R : α → Prop) (x : Answer α) : Prop := ∀ a, x = .ok a → R a

theorem gives_ok {a : α} (ha : R a) : Gives R (.ok a) := by
  intro b hb
  cases hb
  exact ha

theorem gives_error (f : Fault) : Gives R (.error f) := by
  intro b hb
  cases hb

theorem gives_any (x : Answer α) : Gives (fun _ => True) x := fun _ _ => trivial

theorem Gives.bind {x : Answer α} {f : α → Answer β} (hx : Gives R x)
    (hf : ∀ a, R a → Gives S (f a)) : Gives S (x >>= f) := by
  cases x with
  | error e => exact gives_error e
  | ok a => exact hf a (hx a rfl)

theorem Gives.map {x : Answer α} {f : α → β} (hx : Gives R x) (hf : ∀ a, R a → S (f a)) :
    Gives S (x.map f) := by
  cases x with
  | error e => exact gives_error e
  | ok a => exact gives_ok (hf a (hx a rfl))

/-- A step of which nothing needs to be known. -/
theorem gives_bind {x : Answer α} {f : α → Answer β} (hf : ∀ a, Gives S (f a)) :
    Gives S (x >>= f) := (gives_any x).bind fun a _ => hf a

end Answers

/-- What a function of the library answers, and the heap after it, have a property. -/
abbrev Clean (Q : Value → Prop) (answer : Answer (List Value × Heap)) : Prop :=
  Gives (fun r => AllOf Q r.1 ∧ r.2.Conforms Q) answer

variable {h : Heap} {args : List Value}

/-! ### Arguments -/

theorem argument_holds (own : Innate Q) (hargs : AllOf Q args) (i : Nat) : Q (argument args i) := by
  have := hargs.getD own i
  rwa [List.getD_eq_getElem?_getD] at this

theorem any_holds (hargs : AllOf Q args) (i : Nat) : Gives Q (any args i) := by
  unfold any given?
  cases hi : args[i]? with
  | none => exact gives_error _
  | some v => exact gives_ok (hargs v (List.mem_of_getElem? hi))

theorem table_holds (hargs : AllOf Q args) (i : Nat) :
    Gives (fun id => Q (.table id)) (table args i) := by
  unfold table given?
  split
  next id hi => exact gives_ok (hargs _ (List.mem_of_getElem? hi))
  · exact gives_error _

/-! ### Types, tables and metatables -/

theorem toNumber_holds (own : Innate Q) (args : List Value) : Gives Q (toNumber args) := by
  unfold toNumber
  split
  · refine gives_bind fun v => gives_ok ?_
    cases v.numberForm? <;> exact own _ rfl
  · refine gives_bind fun base => ?_
    split
    · split
      · exact gives_error _
      · refine gives_ok ?_
        cases ofDigits? base.toInt.toNat (Text.byteChars _) <;> exact own _ rfl
    · exact gives_error _

theorem select_holds (own : Innate Q) (hargs : AllOf Q args) : Gives (AllOf Q) (select args) := by
  have hfrom : Gives (AllOf Q) (select.fromNumber args args.tail) := by
    unfold select.fromNumber
    refine gives_bind fun n => ?_
    split
    · simp only
      split
      · exact gives_error _
      · exact gives_ok (hargs.tail.drop _)
    · split
      · exact gives_error _
      · exact gives_ok (hargs.tail.drop _)
  unfold select
  simp only
  split
  · split
    · exact gives_ok (AllOf.single (own _ rfl))
    · exact hfrom
  · exact hfrom

theorem getMetatable_holds (own : Innate Q) (hh : h.Conforms Q) (v : Value) :
    Q (getMetatable h v) := by
  unfold getMetatable
  split
  · exact own _ rfl
  · exact own _ rfl
  · split
    · exact own _ rfl
    · simp only
      split
      next hopen => exact hh.unlocked hopen
      · exact hh.rawGet own _ _

theorem setMetatable_holds (hh : h.Conforms Q) (hargs : AllOf Q args) :
    Clean Q (setMetatable h args) := by
  unfold setMetatable
  refine (table_holds hargs 0).bind fun id hid => ?_
  have hset : ∀ metatable : Option TableId, (∀ m, metatable = some m → Q (.table m)) → Clean Q
      (if (h.handler (.table id) "__metatable").isNil then
        .ok ([.table id], h.modifyTable id fun t => { t with metatable })
      else .error (.message "cannot change a protected metatable")) := by
    intro metatable hnew
    split
    next hopen => exact gives_ok ⟨AllOf.single hid, hh.setMetatable hopen hnew⟩
    · exact gives_error _
  simp only
  split
  · exact hset none fun m hm => by cases hm
  next m hm =>
    refine hset (some m) fun m' hm' => ?_
    cases hm'
    exact hargs _ (List.mem_of_getElem? hm)
  · exact gives_error _

theorem rawSet_holds (own : Innate Q) (hh : h.Conforms Q) (hargs : AllOf Q args) :
    Clean Q (rawSet h args) := by
  unfold rawSet
  refine (table_holds hargs 0).bind fun id hid => (any_holds hargs 1).bind fun key hkey =>
    (any_holds hargs 2).bind fun value hvalue => ?_
  split
  · exact gives_error _
  · exact gives_ok ⟨AllOf.single hid, hh.rawSet own hid hkey hvalue⟩

theorem rawLen_holds (own : Innate Q) (hh : h.Conforms Q) (args : List Value) :
    Clean Q (rawLen h args) := by
  unfold rawLen
  split
  · exact gives_ok ⟨AllOf.single (own _ rfl), hh.length _⟩
  · exact gives_ok ⟨AllOf.single (own _ rfl), hh⟩
  · exact gives_error _

theorem next_holds (own : Innate Q) (hh : h.Conforms Q) (args : List Value) :
    Gives (AllOf Q) (next h args) := by
  unfold next
  refine gives_bind fun id => ?_
  split
  · exact gives_error _
  · exact gives_ok (AllOf.single (own _ rfl))
  next k v hnext =>
    obtain ⟨hk, hv⟩ := (hh.table id).next? own hnext
    exact gives_ok (AllOf.cons hk (AllOf.single hv))

/-! ### Lists -/

theorem items_holds (own : Innate Q) (hh : h.Conforms Q) (id : TableId) (first last : Int64) :
    ∀ e ∈ items h id first last, Q e.2 := by
  intro e he
  obtain ⟨i, -, rfl⟩ := List.mem_map.mp he
  exact hh.rawGet own id (.ofInt (first + Int64.ofNat i))

/-- Values that are entered at numbers, one after the other. -/
theorem foldl_rawSet_holds (own : Innate Q) {id : TableId} (hid : Q (.table id))
    (place : Int64 → Int64) {moved : List (Int64 × Value)} (hmoved : ∀ e ∈ moved, Q e.2)
    (hh : h.Conforms Q) :
    (moved.foldl (fun h e => h.rawSet id (.ofInt (place e.1)) e.2) h).Conforms Q := by
  induction moved generalizing h with
  | nil => exact hh
  | cons e rest ih =>
    obtain ⟨he, hrest⟩ := List.forall_mem_cons.mp hmoved
    exact ih hrest (hh.rawSet own hid (own _ rfl) he)

theorem concat_holds (own : Innate Q) (hh : h.Conforms Q) (args : List Value) :
    Clean Q (concat h args) := by
  unfold concat
  refine gives_bind fun id => gives_bind fun sep => gives_bind fun first => gives_bind fun last =>
    gives_bind fun found => ?_
  split <;> exact gives_ok ⟨AllOf.single (own _ rfl), hh.length id⟩

theorem insert_holds (own : Innate Q) (hh : h.Conforms Q) (hargs : AllOf Q args) :
    Clean Q (insert h args) := by
  unfold insert
  refine (table_holds hargs 0).bind fun id hid => ?_
  have hlength : (lengthOf h id).2.Conforms Q := hh.length id
  generalize lengthOf h id = measured at hlength ⊢
  obtain ⟨length, h'⟩ := measured
  simp only
  split
  · exact gives_ok ⟨AllOf.nil, hlength.rawSet own hid (own _ rfl) (argument_holds own hargs 1)⟩
  · split
    · refine gives_bind fun place => ?_
      split
      · exact gives_error _
      · -- the values from the place on move up, the last one first, and then there is room
        have hitems := items_holds own hlength id place length
        have hmoved := foldl_rawSet_holds own hid (· + 1)
          (fun e he => hitems e (List.mem_reverse.mp he)) hlength
        exact gives_ok ⟨AllOf.nil, hmoved.rawSet own hid (own _ rfl) (argument_holds own hargs 2)⟩
    · exact gives_error _

theorem remove_holds (own : Innate Q) (hh : h.Conforms Q) (hargs : AllOf Q args) :
    Clean Q (remove h args) := by
  unfold remove
  refine (table_holds hargs 0).bind fun id hid => ?_
  have hlength : (lengthOf h id).2.Conforms Q := hh.length id
  generalize lengthOf h id = measured at hlength ⊢
  obtain ⟨length, h'⟩ := measured
  refine gives_bind fun place => ?_
  simp only
  split
  · exact gives_error _
  · have hitems := items_holds own hlength id (place + 1) length
    have hmoved := foldl_rawSet_holds own hid (· - 1) hitems hlength
    exact gives_ok ⟨AllOf.single (hlength.rawGet own id _),
      hmoved.rawSet own hid (own _ rfl) (own _ rfl)⟩

theorem pack_holds (own : Innate Q) (hh : h.Conforms Q) (hargs : AllOf Q args) :
    AllOf Q (pack h args).1 ∧ (pack h args).2.Conforms Q := by
  have hfilled := (Table.holds_withRoom args.length 1).fill own 0 hargs
  have hmeta := Table.metatable_fill (Table.withRoom args.length 1) 0 args
  exact ⟨AllOf.single (hh.fresh), hh.newTable (hfilled.setKey (own _ rfl) (own _ rfl)) hmeta⟩

theorem unpack_holds (own : Innate Q) (hh : h.Conforms Q) (args : List Value) :
    Clean Q (unpack h args) := by
  unfold unpack
  refine gives_bind fun id => ?_
  have hlength : (lengthOf h id).2.Conforms Q := hh.length id
  generalize lengthOf h id = measured at hlength ⊢
  obtain ⟨length, h'⟩ := measured
  refine gives_bind fun first => gives_bind fun last => ?_
  split
  · exact gives_error _
  · refine gives_ok ⟨?_, hlength⟩
    intro v hv
    obtain ⟨e, he, rfl⟩ := List.mem_map.mp hv
    exact items_holds own hlength id first last e he

/-! ### Numbers and strings -/

theorem extremum_holds (own : Innate Q) (before : Number → Number → Bool) (args : List Value) :
    Gives Q (extremum before args) :=
  gives_bind fun _ => gives_bind fun _ => gives_ok (own _ rfl)

theorem fmod_holds (own : Innate Q) (args : List Value) : Gives Q (fmod args) := by
  unfold fmod
  refine gives_bind fun a => gives_bind fun b => ?_
  split
  · split
    · exact gives_error _
    · exact gives_ok (own _ rfl)
  · exact gives_ok (own _ rfl)

theorem toWhole_holds (own : Innate Q) (args : List Value) : Gives Q (toWhole args) := by
  unfold toWhole
  refine gives_bind fun v => ?_
  split
  next n => exact gives_ok (by cases n.toInt64? <;> exact own _ rfl)
  next b => exact gives_ok (by cases (Value.string b).intForm? <;> exact own _ rfl)
  · exact gives_ok (own _ rfl)

theorem numberKind_holds (own : Innate Q) (v : Value) : Q (numberKind v) := by
  unfold numberKind
  split <;> exact own _ rfl

theorem repeatString_holds (own : Innate Q) (args : List Value) : Gives Q (repeatString args) := by
  unfold repeatString
  refine gives_bind fun s => gives_bind fun n => gives_bind fun sep => ?_
  split
  · exact gives_ok (own _ rfl)
  · simp only
    split
    · exact gives_error _
    · split <;> exact gives_ok (own _ rfl)

theorem subString_holds (own : Innate Q) (args : List Value) : Gives Q (subString args) :=
  gives_bind fun _ => gives_bind fun _ => gives_bind fun _ => gives_ok (own _ rfl)

theorem bytes_holds (own : Innate Q) (args : List Value) : Gives (AllOf Q) (bytes args) := by
  refine gives_bind fun s => gives_bind fun first => gives_bind fun last => gives_ok ?_
  intro v hv
  obtain ⟨b, -, rfl⟩ := List.mem_map.mp hv
  exact own _ rfl

theorem ofBytes_holds (own : Innate Q) (args : List Value) : Gives Q (ofBytes args) :=
  gives_bind fun _ => gives_ok (own _ rfl)

/-! ### All functions -/

/-- What a function of the library answers is made of what it was given. -/
theorem apply_holds (own : Innate Q) (hh : h.Conforms Q) (hargs : AllOf Q args) (b : Builtin) :
    Clean Q (apply b args h) := by
  have one : ∀ {x : Answer Value}, Gives Q x → Clean Q (x.map fun v => ([v], h)) := fun hx =>
    hx.map fun v hv => ⟨AllOf.single hv, hh⟩
  have many : ∀ {x : Answer (List Value)}, Gives (AllOf Q) x → Clean Q (x.map fun vs => (vs, h)) :=
    fun hx => hx.map fun vs hvs => ⟨hvs, hh⟩
  have number : ∀ f : Number → Number,
      Gives Q ((Library.number args 0).map fun n => Value.number (f n)) := fun f =>
    (gives_any _).map fun n _ => own _ rfl
  have string : ∀ f : ByteArray → ByteArray,
      Gives Q ((Library.string args 0).map fun b => Value.string (f b)) := fun f =>
    (gives_any _).map fun b _ => own _ rfl
  -- The functions that answer numbers, texts and truth values need nothing of their arguments.
  cases b with
  | getMetatable => exact one ((gives_any _).map fun v _ => getMetatable_holds own hh v)
  | ipairs =>
    exact many ((any_holds hargs 0).map fun v hv =>
      AllOf.cons (own _ rfl) (AllOf.cons hv (AllOf.single (own _ rfl))))
  | next => exact many (next_holds own hh args)
  | pairs =>
    exact many ((any_holds hargs 0).map fun v hv =>
      AllOf.cons (own _ rfl) (AllOf.cons hv (AllOf.single (own _ rfl))))
  | rawEqual => exact one (gives_bind fun _ => gives_bind fun _ => gives_ok (own _ rfl))
  | rawGet => exact one (gives_bind fun id => gives_bind fun key => gives_ok (hh.rawGet own id key))
  | rawLen => exact rawLen_holds own hh args
  | rawSet => exact rawSet_holds own hh hargs
  | select => exact many (select_holds own hargs)
  | setMetatable => exact setMetatable_holds hh hargs
  | toNumber => exact one (toNumber_holds own args)
  | typeOf => exact one ((gives_any _).map fun v _ => own _ rfl)
  | mathAbs => exact one (number _)
  | mathCeil => exact one (number _)
  | mathFloor => exact one (number _)
  | mathFmod => exact one (fmod_holds own args)
  | mathMax => exact one (extremum_holds own _ args)
  | mathMin => exact one (extremum_holds own _ args)
  | mathSqrt => exact one (number _)
  | mathToInteger => exact one (toWhole_holds own args)
  | mathType => exact one ((gives_any _).map fun v _ => numberKind_holds own v)
  | stringByte => exact many (bytes_holds own args)
  | stringChar => exact one (ofBytes_holds own args)
  | stringLen => exact one ((gives_any _).map fun b _ => own _ rfl)
  | stringLower => exact one (string _)
  | stringRep => exact one (repeatString_holds own args)
  | stringReverse => exact one (string _)
  | stringSub => exact one (subString_holds own args)
  | stringUpper => exact one (string _)
  | tableConcat => exact concat_holds own hh args
  | tableInsert => exact insert_holds own hh hargs
  | tablePack => exact gives_ok (pack_holds own hh hargs)
  | tableRemove => exact remove_holds own hh hargs
  | tableUnpack => exact unpack_holds own hh args
  | _ => exact gives_error _

end Library

end StoredRoutine.Script
