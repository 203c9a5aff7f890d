import StoredRoutine.Proofs.Script.Machine

/-!
# `StoredRoutine.Proofs.Script.Step`: a step only moves foreign values

Functions and instructions are made of what `StoredRoutine.Proofs.Script.Machine` speaks of.
`step_holds` puts them together: one case for each thing that can be next. `advance_holds` follows
by induction on the number of steps.
-/

set_option autoImplicit false

namespace StoredRoutine.Script.Machine

variable {Q : Value → Prop} {h : Heap} {c : Control}

/-! ### Joining -/

theorem joinNext_holds (own : Innate Q) (hh : h.Conforms Q) (hc : c.Waits Q) (position level : Nat)
    {j : Joining} (hj : Q j.list) : (joinNext h c position level j).Holds Q := by
  unfold joinNext
  split
  · exact ⟨hh, hc.withFocus (AllOf.single (own _ rfl))⟩
  · exact resolve_holds own (noticed_holds hh _ _)
      (hc.push (x := .native (.joinedItem j) position level) hj) _
      (read_holds own hh hj (own _ rfl))

theorem joinList_holds (own : Innate Q) (hh : h.Conforms Q) (hc : c.Waits Q) (position : Nat)
    {args : List Value} (hargs : AllOf Q args) : (joinList h c position args).Holds Q := by
  obtain ⟨hasked, hheap⟩ := lengthOf_holds own hh (hargs.headD own)
  exact resolve_holds own hheap
    (hc.push (x := .native (.joinedLength args) position c.level) hargs) _ hasked

/-- A step that a function of the library comes to has a property, unless it is a fault. -/
abbrev Leads (Q : Value → Prop) (answer : Library.Answer Step) : Prop :=
  Library.Gives (Step.Holds Q) answer

theorem joinLength_holds (own : Innate Q) (hh : h.Conforms Q) (hc : c.Waits Q)
    (position level : Nat) {args : List Value} (hargs : AllOf Q args) (length : Value) :
    Leads Q (joinLength h c position level args length) := by
  unfold joinLength
  split
  · exact Library.gives_error _
  · refine Library.gives_bind fun separator => Library.gives_bind fun number =>
      Library.gives_bind fun last => Library.gives_ok ?_
    exact joinNext_holds own hh hc position level (hargs.headD own)

theorem joinItem_holds (own : Innate Q) (hh : h.Conforms Q) (hc : c.Waits Q) (position level : Nat)
    {j : Joining} (hj : Q j.list) (item : Value) :
    Leads Q (joinItem h c position level j item) := by
  unfold joinItem
  split
  · exact Library.gives_error _
  · simp only
    split
    · exact Library.gives_ok ⟨hh, hc.withFocus (AllOf.single (own _ rfl))⟩
    · exact Library.gives_ok (joinNext_holds own hh hc position level hj)

/-! ### Calls -/

theorem startRegisters_holds (own : Innate Q) (code : FunctionCode) {args : List Value}
    (hargs : AllOf Q args) (r : Nat) : Q ((startRegisters code args).getD r .nil) := by
  rw [Array.getD_eq_getD_getElem?]
  cases hr : (startRegisters code args)[r]? with
  | none => exact own _ rfl
  | some v =>
    -- a register starts with a parameter or with nil
    have hmem : v ∈ startRegisters code args := Array.mem_of_getElem? hr
    rcases Array.mem_append.mp hmem with hgiven | hrest
    · exact hargs v (List.mem_of_mem_take (List.mem_toArray.mp hgiven))
    · cases (Array.mem_replicate.mp hrest).2
      exact own _ rfl

theorem activationOf_holds (own : Innate Q) (c : Control) (position count : Nat) (f : Closure)
    {args : List Value} (hargs : AllOf Q args) :
    (activationOf c position count f args).Holds Q where
  register := startRegisters_holds own f.code hargs
  spread := AllOf.nil
  varargs := by
    show AllOf Q (if f.code.variadic then args.drop f.code.params else [])
    split
    · exact hargs.drop _
    · exact AllOf.nil

theorem callClosure_holds (own : Innate Q) (hh : h.Conforms Q) (hc : c.Waits Q) (position : Nat)
    (id : ClosureId) {args : List Value} (hargs : AllOf Q args) :
    (callClosure h c position id args).Holds Q := by
  unfold callClosure
  split
  · exact ⟨hh, hc.fault own _⟩
  · simp only
    split
    · exact ⟨hh, hc.fault own _⟩
    · exact ⟨hh, hc.withFocus (activationOf_holds own c position _ _ hargs)⟩

theorem libraryFault_holds (own : Innate Q) (hh : h.Conforms Q) (hc : c.Waits Q) (b : Builtin)
    (f : Library.Fault) : (libraryFault h c b f).Holds Q := by
  cases f with
  | message text => exact ⟨hh, hc.fault own _⟩
  | bare text => exact ⟨hh, hc.withFocus (own (.ofText text) rfl)⟩
  | argument n text => exact ⟨hh, hc.fault own _⟩

theorem orFault_holds (own : Innate Q) (hh : h.Conforms Q) (hc : c.Waits Q) (b : Builtin)
    {answer : Library.Answer Step} (ha : Leads Q answer) : (orFault h c b answer).Holds Q := by
  cases answer with
  | ok s => exact ha s rfl
  | error f => exact libraryFault_holds own hh hc b f

theorem raiseArgument_holds (own : Innate Q) (hc : c.Waits Q) {v : Value} (hv : Q v)
    (level : Int64) : (raiseArgument c v level).Holds Q := by
  unfold raiseArgument
  split
  · exact hc.withFocus (own (.string _) rfl)
  · exact hc.withFocus hv

theorem textOf_holds (own : Innate Q) (hh : h.Conforms Q) (hc : c.Waits Q) (position : Nat)
    {v : Value} (hv : Q v) : (textOf h c position v).Holds Q := by
  unfold textOf
  split
  · exact ⟨own _ rfl, AllOf.single hv, hh, hc⟩
  · exact ⟨hh, hc.withFocus (AllOf.single hv)⟩
  · simp only
    split
    · exact ⟨hh, hc.withFocus (AllOf.single (own _ rfl))⟩
    · exact ⟨hh, (hc.push (x := .native .text position c.level) trivial).nest own _
        (hh.handler own v _) (AllOf.single hv)⟩

theorem traversalOf_holds (own : Innate Q) (hh : h.Conforms Q) (hc : c.Waits Q) (position : Nat)
    {v : Value} (hv : Q v) : (traversalOf h c position v).Holds Q := by
  unfold traversalOf
  simp only
  split
  · exact ⟨hh, hc.withFocus (AllOf.cons (own _ rfl) (AllOf.cons hv (AllOf.single (own _ rfl))))⟩
  · exact ⟨hh, (hc.push (x := .native .traversal position c.level) trivial).nest own _
      (hh.handler own v _) (AllOf.single hv)⟩

theorem nextItem_holds (own : Innate Q) (hh : h.Conforms Q) (hc : c.Waits Q) (position : Nat)
    {list : Value} (hl : Q list) (number : Int64) : (nextItem h c position list number).Holds Q :=
  resolve_holds own (noticed_holds hh _ _)
    (hc.push (x := .native (.item (number + 1)) position c.level) trivial) _
    (read_holds own hh hl (own _ rfl))

theorem itemValues_holds (own : Innate Q) (number : Int64) {v : Value} (hv : Q v) :
    AllOf Q (itemValues number v) := by
  unfold itemValues
  split
  · exact AllOf.single (own _ rfl)
  · exact AllOf.cons (own _ rfl) (AllOf.single hv)

theorem callLibrary_holds (own : Innate Q) (hh : h.Conforms Q) (hc : c.Waits Q) (b : Builtin)
    {args : List Value} (hargs : AllOf Q args) : (callLibrary h c b args).Holds Q := by
  have hclean := Library.apply_holds own hh hargs b
  unfold callLibrary
  cases happly : Library.apply b args h with
  | error f => exact libraryFault_holds own hh hc b f
  | ok r =>
    obtain ⟨hvs, hheap⟩ := hclean r happly
    exact ⟨hheap, hc.withFocus hvs⟩

theorem callBuiltin_holds (own : Innate Q) (hh : h.Conforms Q) (hc : c.Waits Q) (position : Nat)
    (b : Builtin) {args : List Value} (hargs : AllOf Q args) :
    (callBuiltin h c position b args).Holds Q := by
  have answer : ∀ {vs : List Value}, AllOf Q vs → (Step.next h (c.withFocus (.give vs))).Holds Q :=
    fun hvs => ⟨hh, hc.withFocus hvs⟩
  have wrong : ∀ f : Library.Fault, (libraryFault h c b f).Holds Q := fun f =>
    libraryFault_holds own hh hc b f
  have hfirst : Q (args.headD .nil) := hargs.headD own
  -- what no case below names is answered by the library alone
  have library : (callLibrary h c b args).Holds Q := callLibrary_holds own hh hc b hargs
  cases b with
  | assert =>
    simp only [callBuiltin]
    split
    next v rest =>
      split
      · exact answer hargs
      · -- what is raised is the second argument, if there is one
        refine ⟨hh, raiseArgument_holds own hc ?_ 1⟩
        cases rest with
        | nil => exact own _ rfl
        | cons w _ => exact hargs w (by simp)
    · exact wrong _
  | error =>
    simp only [callBuiltin]
    split
    · exact ⟨hh, raiseArgument_holds own hc hfirst _⟩
    · exact wrong _
  | pcall =>
    simp only [callBuiltin]
    split
    · exact ⟨hh, (hc.push (x := .native .guarded position c.level) trivial).nest own _ hfirst
        hargs.tail⟩
    · exact wrong _
  | toText =>
    simp only [callBuiltin]
    split
    · exact textOf_holds own hh hc position hfirst
    · exact wrong _
  | pairs =>
    simp only [callBuiltin]
    split
    · exact traversalOf_holds own hh hc position hfirst
    · exact wrong _
  | ipairsNext =>
    simp only [callBuiltin]
    split
    · exact wrong _
    · exact nextItem_holds own hh hc position hfirst _
  | coCreate | coWrap =>
    simp only [callBuiltin]
    split
    · split
      · exact ⟨hh.newThread hfirst, hc.withFocus (AllOf.single (own _ rfl))⟩
      · exact wrong _
    · exact wrong _
  | coResume =>
    simp only [callBuiltin]
    split
    · exact resume_holds own hh hc _ hargs.tail false
    · exact wrong _
  | coYield => exact yieldValues_holds own hh hc hargs
  | coStatus =>
    simp only [callBuiltin]
    split
    · exact answer (AllOf.single (own _ rfl))
    · exact wrong _
  | coRunning =>
    simp only [callBuiltin]
    split <;> exact answer (AllOf.cons (own _ rfl) (AllOf.single (own _ rfl)))
  | coIsYieldable => exact answer (AllOf.single (own _ rfl))
  | tableConcat =>
    simp only [callBuiltin]
    split
    · exact joinList_holds own hh hc position hargs
    · refine orFault_holds own hh hc _ ((Library.concat_holds own hh args).map ?_)
      exact fun r hr => ⟨hr.2, hc.withFocus hr.1⟩
  | _ => exact library

theorem deliverNative_holds (own : Innate Q) (hh : h.Conforms Q) (hc : c.Waits Q) {n : Native}
    (hn : n.Holds Q) (position level : Nat) {values : List Value} (hvs : AllOf Q values) :
    (deliverNative h c n position level values).Holds Q := by
  have give : ∀ {vs : List Value}, AllOf Q vs → (Step.next h (c.withFocus (.give vs))).Holds Q :=
    fun hvs => ⟨hh, hc.withFocus hvs⟩
  have hfirst : Q (values.headD .nil) := hvs.headD own
  cases n with
  | guarded => exact give (AllOf.cons (own _ rfl) hvs)
  | text =>
    simp only [deliverNative]
    split
    · exact give (AllOf.single (own _ rfl))
    · exact ⟨hh, hc.fault own _⟩
  | item number => exact give (itemValues_holds own number hfirst)
  | joinedLength args =>
    exact orFault_holds own hh hc _ (joinLength_holds own hh hc position level hn _)
  | joinedItem j => exact orFault_holds own hh hc _ (joinItem_holds own hh hc position level hn _)
  | traversal =>
    exact give (AllOf.cons hfirst (AllOf.cons (hvs.getD own 1) (AllOf.single (hvs.getD own 2))))
  | service => exact give hvs

theorem call_holds (own : Innate Q) (hh : h.Conforms Q) (hc : c.Waits Q) (position : Nat)
    {f : Value} (hf : Q f) {args : List Value} (hargs : AllOf Q args) :
    (call h c position f args).Holds Q := by
  unfold call
  split
  · exact callClosure_holds own hh hc position _ hargs
  · split
    · exact ⟨hh, hc.fault own _⟩
    · split
      · exact callBuiltin_holds own hh hc position _ hargs
      · exact ⟨hf, hargs, hh, hc⟩
      · exact resume_holds own hh hc _ hargs true
      · simp only
        split
        · exact ⟨hh, hc.fault own _⟩
        · exact ⟨hh, hc.withFocus ⟨hh.handler own _ _, AllOf.cons hf hargs⟩⟩

/-! ### Instructions -/

section

variable {a : Activation}

theorem go_holds (hh : h.Conforms Q) (hc : c.Waits Q) (ha : a.Holds Q) : (go h c a).Holds Q :=
  ⟨hh, hc.withFocus ha⟩

theorem goTo_holds (hh : h.Conforms Q) (hc : c.Waits Q) (ha : a.Holds Q) (next : Nat) :
    (goTo h c a next).Holds Q := go_holds hh hc (ha.goingOn next)

theorem put_holds (hh : h.Conforms Q) (hc : c.Waits Q) (ha : a.Holds Q) (p : Place) {v : Value}
    (hv : Q v) : (put h c a p v).Holds Q := by
  unfold put
  split
  · exact go_holds (hh.write _ hv) hc ha
  · exact go_holds hh hc (ha.setRegister _ hv)

theorem receive_holds (own : Innate Q) (hh : h.Conforms Q) (hc : c.Waits Q) (ha : a.Holds Q)
    (dest : Place) {asked : Asked} (hasked : asked.Holds Q) :
    (receive h c a dest asked).Holds Q := by
  unfold receive
  split
  · exact put_holds hh hc ha dest hasked
  · exact resolve_holds own hh (hc.push (x := .script a) ha) _ hasked

theorem store_holds (own : Innate Q) (hh : h.Conforms Q) (hc : c.Waits Q) (ha : a.Holds Q)
    {object key value : Value} (ho : Q object) (hkey : Q key) (hvalue : Q value) :
    (store h c a object key value).Holds Q := by
  have hplace := storePlace_holds own hh hkey hvalue maxHandlers ho
  unfold store
  split
  next id heq =>
    rw [heq] at hplace
    split
    · exact ⟨hh, hc.raiseText own _ _⟩
    · exact go_holds (hh.rawSet own hplace hkey hvalue) hc ha
  next asked heq =>
    rw [heq] at hplace
    exact resolve_holds own hh (hc.push (x := .script a) ha) _ hplace

theorem fillTable_holds (own : Innate Q) (hh : h.Conforms Q) (ha : a.Holds Q) (table items : Nat)
    (count : Option Nat) : (fillTable h a table items count).Conforms Q := by
  unfold fillTable
  split
  next id hid =>
    have hvisible : Q (.table id) := hid ▸ ha.register table
    exact hh.modifyTable hvisible ((hh.table id).fill own items (ha.valuesFrom _ count))
      (Table.metatable_fill _ _ _)
  · exact hh

theorem join_holds (own : Innate Q) (hh : h.Conforms Q) {left : List Value} (hleft : AllOf Q left)
    {right : Value} (hright : Q right) :
    (join h left right).1.Holds Q ∧ AllOf Q (join h left right).2 := by
  induction left generalizing right with
  | nil => exact ⟨hright, AllOf.nil⟩
  | cons v left ih =>
    obtain ⟨hv, hleft⟩ := List.forall_mem_cons.mp hleft
    have happlied := Operators.concat_holds own hh hv hright
    unfold join
    split
    next s heq =>
      rw [heq] at happlied
      exact ih hleft happlied
    · exact ⟨ofApplied_holds happlied, hleft⟩

theorem joinInto_holds (own : Innate Q) (hh : h.Conforms Q) (hc : c.Waits Q) (ha : a.Holds Q)
    (dest : Nat) {left : List Value} (hleft : AllOf Q left) {right : Value} (hright : Q right) :
    (joinInto h c a dest left right).Holds Q := by
  have hjoined := join_holds own hh hleft hright
  unfold joinInto
  split
  next v rest heq =>
    rw [heq] at hjoined
    exact go_holds hh hc (ha.setRegister dest hjoined.1)
  next asked rest _ heq =>
    rw [heq] at hjoined
    exact resolve_holds own hh (hc.push (x := .concat a rest) ⟨ha, hjoined.2⟩) _ hjoined.1

theorem joinAll_holds (own : Innate Q) (hh : h.Conforms Q) (hc : c.Waits Q) (ha : a.Holds Q)
    (dest : Nat) {values : List Value} (hvs : AllOf Q values) :
    (joinAll h c a dest values).Holds Q := by
  cases values with
  | nil => exact go_holds hh hc ha
  | cons last left =>
    obtain ⟨hlast, hleft⟩ := List.forall_mem_cons.mp hvs
    exact joinInto_holds own hh hc ha dest hleft hlast

theorem decideOn_holds (hh : h.Conforms Q) (hc : c.Waits Q) (ha : a.Holds Q) (v : Value)
    (holds : Bool) (target : Nat) : (decideOn h c a v holds target).Holds Q := by
  unfold decideOn
  split
  · exact goTo_holds hh hc ha target
  · exact go_holds hh hc ha

/-- The registers of a counting loop hold numbers. -/
theorem countRound_holds (own : Innate Q) (hh : h.Conforms Q) (hc : c.Waits Q) (ha : a.Holds Q)
    (first : Nat) (k : Counter) : (countRound h c a first k).Holds Q := by
  have hvalues : AllOf Q [k.value, k.bound, k.step, k.value] := by
    cases k <;> exact AllOf.cons (own _ rfl) (AllOf.cons (own _ rfl)
      (AllOf.cons (own _ rfl) (AllOf.single (own _ rfl))))
  exact go_holds hh hc (ha.setRegisters first hvalues)

theorem startCounting_holds (own : Innate Q) (hh : h.Conforms Q) (hc : c.Waits Q) (ha : a.Holds Q)
    (first exit : Nat) : (startCounting h c a first exit).Holds Q := by
  unfold startCounting
  split
  · exact ⟨hh, hc.raiseText own _ _⟩
  · exact goTo_holds hh hc ha exit
  · exact countRound_holds own hh hc ha first _

theorem callee_holds (own : Innate Q) (hh : h.Conforms Q) (left : Nat) {f : Value} (hf : Q f)
    {args : List Value} (hargs : AllOf Q args) :
    Q (callee h left f args).1 ∧ AllOf Q (callee h left f args).2 := by
  induction left generalizing f args with
  | zero => exact ⟨hf, hargs⟩
  | succ left ih =>
    unfold callee
    split
    · exact ⟨hf, hargs⟩
    · simp only
      split
      · exact ⟨hf, hargs⟩
      · exact ih (hh.handler own f _) (AllOf.cons hf hargs)

theorem callFrom_holds (hh : h.Conforms Q) (hc : c.Waits Q) (ha : a.Holds Q) (first : Nat)
    (args : Option Nat) : (callFrom h c a first args).Holds Q :=
  ⟨hh, (hc.push (x := .script a) ha).withFocus ⟨ha.register first, ha.valuesFrom _ args⟩⟩

theorem callInstead_holds (own : Innate Q) (hh : h.Conforms Q) (hc : c.Waits Q) (ha : a.Holds Q)
    (first : Nat) (args : Option Nat) : (callInstead h c a first args).Holds Q := by
  have hcallee := callee_holds own hh maxLevel (ha.register first) (ha.valuesFrom (first + 1) args)
  unfold callInstead
  generalize callee h maxLevel (a.register first) (a.valuesFrom (first + 1) args) = found
    at hcallee ⊢
  obtain ⟨f, values⟩ := found
  simp only
  split
  · exact ⟨hh, hc.withFocus hcallee⟩
  · exact ⟨hh, (hc.push (x := .script a) ha).withFocus hcallee⟩

theorem makeClosure_holds (own : Innate Q) (hh : h.Conforms Q) (a : Activation) (index : Nat) :
    Q (makeClosure h a index).1 ∧ (makeClosure h a index).2.Conforms Q :=
  ⟨own _ rfl, hh.newClosure _⟩

theorem spreadArguments_holds (own : Innate Q) (hh : h.Conforms Q) (hc : c.Waits Q) (ha : a.Holds Q)
    (dest : Place) (count : Option Nat) : (spreadArguments h c a dest count).Holds Q := by
  unfold spreadArguments
  simp only
  split
  · exact put_holds hh hc ha dest (ha.varargs.headD own)
  · exact go_holds hh hc (ha.setCount own _ _ ha.varargs)
  · exact go_holds hh hc ⟨ha.register, ha.varargs, ha.varargs⟩

/-- One instruction, one case for each. -/
theorem perform_holds (own : Innate Q) (hh : h.Conforms Q) (hc : c.Waits Q) (ha : a.Holds Q)
    (i : Instruction) : (perform h c a i).Holds Q := by
  have hcall : (c.push (.script a)).Waits Q := hc.push ha
  cases i with
  | load dest v => exact put_holds hh hc ha dest (Activation.innate_constant own v)
  | loadNils first count => exact go_holds hh hc (ha.setCount own first count AllOf.nil)
  | copy dest source => exact put_holds hh hc ha dest (ha.get hh source)
  | getOuter dest i => exact put_holds hh hc ha dest (hh.read _)
  | setOuter i source => exact go_holds (hh.write _ (ha.get hh source)) hc ha
  | getField dest holder key =>
    exact receive_holds own (noticed_holds hh _ _) hc ha dest
      (read_holds own hh (ha.holder hh holder) (ha.operand own hh key))
  | setField holder key value =>
    exact store_holds own hh hc ha (ha.holder hh holder) (ha.operand own hh key)
      (ha.operand own hh value)
  | getMethod first p key =>
    exact receive_holds own hh hc (ha.setRegister _ (ha.get hh p)) _
      (read_holds own hh (ha.get hh p) (ha.operand own hh key))
  | newTable dest items entries =>
    exact go_holds (hh.newTable (Table.holds_withRoom _ _) rfl) hc (ha.setRegister dest hh.fresh)
  | fill table items count => exact go_holds (fillTable_holds own hh ha table items count) hc ha
  | unary dest op p =>
    -- Every operator but the length works on the value alone; the length may be that of a table.
    have hother := receive_holds own hh hc ha dest
      (ofApplied_holds (Operators.unary_holds own hh op (ha.get hh p)))
    cases op with
    | length =>
      obtain ⟨hasked, hheap⟩ := lengthOf_holds own hh (ha.get hh p)
      exact receive_holds own hheap hc ha dest hasked
    | _ => exact hother
  | arith dest op left right =>
    exact receive_holds own hh hc ha dest (ofApplied_holds
      (Operators.arith_holds own hh op (ha.operand own hh left) (ha.operand own hh right)))
  | concat first count =>
    exact joinAll_holds own hh hc ha first
      (fun v hv => ha.slice first count v (List.mem_reverse.mp hv))
  | jump target => exact goTo_holds hh hc ha target
  | skip target => exact goTo_holds hh hc ha target
  | branch condition holds keep target =>
    simp only [perform]
    split
    · split
      · exact put_holds hh hc (ha.goingOn target) _ (ha.get hh condition)
      · exact goTo_holds hh hc ha target
    · exact go_holds hh hc ha
  | compare op left right holds target =>
    have happlied := Operators.compare_holds own hh op (ha.operand own hh left)
      (ha.operand own hh right)
    simp only [perform]
    split
    · exact decideOn_holds hh hc ha _ holds target
    · exact resolve_holds own hh hcall _ (ofApplied_holds happlied)
  | call first args results => exact callFrom_holds hh hc ha first args
  | tailCall first args => exact callInstead_holds own hh hc ha first args
  | result first count => exact ⟨hh, hc.withFocus (ha.valuesFrom first count)⟩
  | resultOne p => exact ⟨hh, hc.withFocus (AllOf.single (ha.get hh p))⟩
  | varargs dest count => exact spreadArguments_holds own hh hc ha dest count
  | closure dest i =>
    obtain ⟨hv, hheap⟩ := makeClosure_holds own hh a i
    exact put_holds hheap hc ha dest hv
  | share r =>
    exact go_holds (hh.newCell (ha.register r)) hc ⟨ha.register, ha.spread, ha.varargs⟩
  | countStart first exit => exact startCounting_holds own hh hc ha first exit
  | countNext first body =>
    simp only [perform]
    split
    · exact countRound_holds own hh hc (ha.goingOn body) first _
    · exact go_holds hh hc ha
  | eachCall first count =>
    exact ⟨hh, hcall.nest own _ (ha.register first)
      (AllOf.cons (ha.register _) (AllOf.single (ha.register _)))⟩
  | eachNext first body =>
    simp only [perform]
    split
    · exact go_holds hh hc ha
    · exact goTo_holds hh hc (ha.setRegister _ (ha.register _)) body

theorem execute_holds (own : Innate Q) (hh : h.Conforms Q) (hc : c.Waits Q) (ha : a.Holds Q) :
    (execute h c a).Holds Q :=
  perform_holds own hh hc (ha.goingOn _) _

theorem deliver_holds (own : Innate Q) (hh : h.Conforms Q) (hc : c.Waits Q) (ha : a.Holds Q)
    {values : List Value} (hvs : AllOf Q values) : (deliver h c a values).Holds Q := by
  have hfirst : Q (values.headD .nil) := hvs.headD own
  have hspread : ∀ dest, ({ a with spreadFrom := dest, spread := values } : Activation).Holds Q :=
    fun _ => ⟨ha.register, hvs, ha.varargs⟩
  unfold deliver
  simp only
  split
  · exact go_holds hh hc (ha.setCount own _ _ hvs)
  · exact go_holds hh hc (hspread _)
  · exact go_holds hh hc (hspread _)
  · exact put_holds hh hc ha _ hfirst
  · exact put_holds hh hc ha _ hfirst
  · exact put_holds hh hc ha _ hfirst
  · exact go_holds hh hc (ha.setRegister _ hfirst)
  · exact decideOn_holds hh hc ha _ _ _
  · exact go_holds hh hc (ha.setCount own _ _ hvs)
  · exact go_holds hh hc ha

theorem deliverJoined_holds (own : Innate Q) (hh : h.Conforms Q) (hc : c.Waits Q) (ha : a.Holds Q)
    {left values : List Value} (hleft : AllOf Q left) (hvs : AllOf Q values) :
    (deliverJoined h c a left values).Holds Q := by
  unfold deliverJoined
  split
  · exact joinInto_holds own hh hc ha _ hleft (hvs.headD own)
  · exact go_holds hh hc ha

end

/-! ### Steps -/

theorem give_holds (own : Innate Q) (hh : h.Conforms Q) (hc : c.Waits Q) {values : List Value}
    (hvs : AllOf Q values) : (give h c values).Holds Q := by
  -- one caller less waits, whatever the level is
  have hless : ∀ {rest level}, (∀ x ∈ rest, x.Holds Q) →
      ({ c with callers := rest, level } : Control).Waits Q := fun hrest => ⟨hrest, hc.resumptions⟩
  unfold give
  split
  · exact endStack_holds own hh hc hvs
  next a rest heq =>
    obtain ⟨ha, hrest⟩ := List.forall_mem_cons.mp (heq ▸ hc.callers)
    exact deliver_holds own hh (hless hrest) ha hvs
  next a left rest heq =>
    obtain ⟨ha, hrest⟩ := List.forall_mem_cons.mp (heq ▸ hc.callers)
    exact deliverJoined_holds own hh (hless hrest) ha.1 ha.2 hvs
  next n position level rest heq =>
    obtain ⟨hn, hrest⟩ := List.forall_mem_cons.mp (heq ▸ hc.callers)
    exact deliverNative_holds own hh (hless hrest) hn position _ hvs

/-- A property that is innate is kept by a step: by everything that goes on, and by everything
that the step hands out. -/
theorem step_holds (own : Innate Q) (hh : h.Conforms Q) (hc : c.Holds Q) : (step h c).Holds Q := by
  have hwaits : (c.withFocus (.give [])).Waits Q := ⟨hc.callers, hc.resumptions⟩
  have hfocus := hc.focus
  unfold step
  cases hf : c.focus with
  | run a =>
    rw [hf] at hfocus
    exact execute_holds own hh hwaits hfocus
  | give values =>
    rw [hf] at hfocus
    exact give_holds own hh hwaits hfocus
  | call position f args =>
    rw [hf] at hfocus
    exact call_holds own hh hwaits position hfocus.1 hfocus.2
  | raise error =>
    rw [hf] at hfocus
    exact raise_holds own hh hwaits hfocus

/-- Many steps keep what one step keeps. -/
theorem advance_holds (own : Innate Q) (steps due : Nat) (hh : h.Conforms Q) (hc : c.Holds Q) :
    (advance steps due h c).2.Holds Q := by
  induction steps generalizing due h c with
  | zero => exact ⟨hh, hc⟩
  | succ steps ih =>
    have hstep := step_holds own hh hc
    unfold advance
    simp only
    split
    · exact ⟨hh, hc⟩
    · split
      next h' c' heq =>
        rw [heq] at hstep
        exact ih _ hstep.1 hstep.2
      · exact hstep

end StoredRoutine.Script.Machine
