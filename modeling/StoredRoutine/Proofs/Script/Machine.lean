import StoredRoutine.Proofs.Script.Library
import StoredRoutine.Script.Machine.Step

/-!
# `StoredRoutine.Proofs.Script.Machine`: the machine only moves foreign values

If all values in a heap and in a control have a property that is innate, they have it after a step
of the machine (`step_holds`), and so do the values that the step hands out: the arguments of a
service that is asked for, and what a run ends with. `advance_holds` says the same of many steps.

There is one lemma for each function of the machine, in the order in which the functions are
defined. Each of them says what the function leaves of the property, so that no proof looks into
two functions.
-/

set_option autoImplicit false

namespace StoredRoutine.Script

variable {Q : Value → Prop}

/-! ### Activations -/

namespace Activation

variable {a : Activation} {h : Heap}

/-- Where an activation goes on does not count. -/
theorem Holds.goingOn (ha : a.Holds Q) (next : Nat) : ({ a with next } : Activation).Holds Q :=
  ⟨ha.register, ha.spread, ha.varargs⟩

theorem Holds.setRegister (ha : a.Holds Q) (r : Nat) {v : Value} (hv : Q v) :
    (a.setRegister r v).Holds Q where
  register := forall_getD_setIfInBounds ha.register r hv
  spread := ha.spread
  varargs := ha.varargs

theorem Holds.setRegisters (ha : a.Holds Q) (first : Nat) {values : List Value}
    (hvs : AllOf Q values) : (a.setRegisters first values).Holds Q := by
  induction values generalizing a first with
  | nil => exact ha
  | cons v rest ih =>
    obtain ⟨hv, hrest⟩ := List.forall_mem_cons.mp hvs
    exact ih (ha.setRegister first hv) (first + 1) hrest

theorem Holds.setCount (own : Innate Q) (ha : a.Holds Q) (first n : Nat) {values : List Value}
    (hvs : AllOf Q values) : (a.setCount first n values).Holds Q := by
  induction n generalizing a first values with
  | zero => exact ha
  | succ n ih => exact ih (ha.setRegister first (hvs.headD own)) (first + 1) hvs.tail

theorem Holds.slice (ha : a.Holds Q) (first count : Nat) : AllOf Q (a.slice first count) := by
  intro v hv
  obtain ⟨i, hi⟩ := List.mem_iff_getElem?.mp hv
  rw [Activation.slice, Array.getElem?_toList, Array.getElem?_extract] at hi
  split at hi
  · -- a value of the slice is that of the register which is so much further on
    have hreg := ha.register (first + i)
    rw [Activation.register, Array.getD_eq_getD_getElem?, hi] at hreg
    exact hreg
  · cases hi

theorem Holds.valuesFrom (ha : a.Holds Q) (first : Nat) (count : Option Nat) :
    AllOf Q (a.valuesFrom first count) := by
  cases count with
  | some count => exact ha.slice first count
  | none => exact (ha.slice first _).append ha.spread

theorem Holds.get (ha : a.Holds Q) (hh : h.Conforms Q) (p : Place) : Q (a.get h p) := by
  unfold Activation.get
  split
  · exact hh.read _
  · exact ha.register _

theorem innate_constant (own : Innate Q) (c : Constant) : Q c.value := by
  cases c <;> exact own _ rfl

theorem Holds.operand (own : Innate Q) (ha : a.Holds Q) (hh : h.Conforms Q) (s : Source) :
    Q (a.operand h s) := by
  cases s with
  | place p => exact ha.get hh p
  | constant c => exact innate_constant own c

theorem Holds.holder (ha : a.Holds Q) (hh : h.Conforms Q) (x : Holder) : Q (a.holder h x) := by
  cases x with
  | place p => exact ha.get hh p
  | outer i => exact hh.read _

end Activation

/-! ### Controls -/

/-- The values with which a run ends have a property. -/
def Ending.Holds (Q : Value → Prop) : Ending → Prop
  | .finished values => AllOf Q values
  | .yielded values => AllOf Q values
  | .failed error => Q error

/-- The values that a step leaves have a property. -/
def Step.Holds (Q : Value → Prop) : Step → Prop
  | .next h c => h.Conforms Q ∧ c.Holds Q
  | .request s args _ h c => Q (.service s) ∧ AllOf Q args ∧ h.Conforms Q ∧ c.Waits Q
  | .ended e h => e.Holds Q ∧ h.Conforms Q

namespace Control

variable {c : Control}

theorem Waits.withFocus (hc : c.Waits Q) {f : Focus} (hf : f.Holds Q) :
    (c.withFocus f).Holds Q where
  callers := hc.callers
  resumptions := hc.resumptions
  focus := hf

theorem Waits.push (hc : c.Waits Q) {x : Caller} (hx : x.Holds Q) : (c.push x).Waits Q where
  callers := List.forall_mem_cons.mpr ⟨hx, hc.callers⟩
  resumptions := hc.resumptions

/-- A message is a string. -/
theorem Waits.raiseText (own : Innate Q) (hc : c.Waits Q) (place : List Char) (text : String) :
    (c.raiseText place text).Holds Q := hc.withFocus (own (.string _) rfl)

theorem Waits.fault (own : Innate Q) (hc : c.Waits Q) (text : String) : (c.fault text).Holds Q :=
  hc.raiseText own _ text

theorem Waits.nest (own : Innate Q) (hc : c.Waits Q) (position : Nat) {f : Value}
    {args : List Value} (hf : Q f) (hargs : AllOf Q args) : (c.nest position f args).Holds Q := by
  unfold Control.nest
  split
  · exact hc.fault own _
  · exact ⟨⟨hc.callers, hc.resumptions⟩, hf, hargs⟩

end Control

namespace Machine

variable {h : Heap} {c : Control}

/-! ### Errors and coroutines -/

theorem goBack_holds {r : Resumption} {rest : List Resumption} {f : Focus}
    (hr : ∀ x ∈ r.callers, x.Holds Q) (hrest : ∀ r ∈ rest, ∀ x ∈ r.callers, x.Holds Q)
    (hf : f.Holds Q) : (goBack c r rest f).Holds Q :=
  ⟨⟨hr, hrest⟩, hf⟩

theorem answerOf_holds (own : Innate Q) (r : Resumption) {values : List Value}
    (hvs : AllOf Q values) : (answerOf r values).Holds Q := by
  unfold answerOf
  split
  · exact hvs
  · exact AllOf.cons (own _ rfl) hvs

theorem errorOf_holds (own : Innate Q) (r : Resumption) {error : Value} (he : Q error) :
    (errorOf r error).Holds Q := by
  unfold errorOf
  split
  · split
    · exact own (.string _) rfl
    · exact he
  · exact AllOf.cons (own _ rfl) (AllOf.single he)

theorem resume_holds (own : Innate Q) (hh : h.Conforms Q) (hc : c.Waits Q) (t : ThreadId)
    {args : List Value} (hargs : AllOf Q args) (wraps : Bool) :
    (resume h c t args wraps).Holds Q := by
  have hrefuse : ∀ text : String,
      (c.withFocus (errorOf (resumptionOf c wraps) (.ofText text))).Holds Q := fun text =>
    hc.withFocus (errorOf_holds own _ (own _ rfl))
  have hresumptions : ∀ r ∈ resumptionOf c wraps :: c.resumptions, ∀ x ∈ r.callers, x.Holds Q :=
    List.forall_mem_cons.mpr ⟨hc.callers, hc.resumptions⟩
  have hthread := hh.thread t
  unfold resume
  cases hstate : h.thread t with
  | active => exact ⟨hh, hrefuse _⟩
  | dead => exact ⟨hh, hrefuse _⟩
  | fresh body =>
    rw [hstate] at hthread
    refine ⟨hh.setThread t trivial, ⟨List.forall_mem_nil _, hresumptions⟩, ?_⟩
    show (startOf c body args).Holds Q
    unfold startOf
    split
    · exact own (.ofText _) rfl
    · exact ⟨hthread, hargs⟩
  | waiting callers =>
    rw [hstate] at hthread
    exact ⟨hh.setThread t trivial, ⟨hthread, hresumptions⟩, hargs⟩

theorem yieldValues_holds (own : Innate Q) (hh : h.Conforms Q) (hc : c.Waits Q)
    {values : List Value} (hvs : AllOf Q values) : (yieldValues h c values).Holds Q := by
  have hrefuse : ∀ text : String, (c.withFocus (.raise (.ofText text))).Holds Q := fun text =>
    hc.withFocus (own (.ofText text) rfl)
  unfold yieldValues
  cases c.thread with
  | none =>
    simp only
    split <;> exact ⟨hh, hrefuse _⟩
  | some t =>
    simp only
    split
    · exact ⟨hh, hrefuse _⟩
    · have hheap : (h.setThread t (.waiting c.callers)).Conforms Q := hh.setThread t hc.callers
      cases hr : c.resumptions with
      | nil => exact ⟨hvs, hheap⟩
      | cons r rest =>
        obtain ⟨hfirst, hrest⟩ := List.forall_mem_cons.mp (hr ▸ hc.resumptions)
        exact ⟨hheap, goBack_holds hfirst hrest (answerOf_holds own r hvs)⟩

theorem endStack_holds (own : Innate Q) (hh : h.Conforms Q) (hc : c.Waits Q) {values : List Value}
    (hvs : AllOf Q values) : (endStack h c values).Holds Q := by
  unfold endStack
  cases c.thread with
  | none => exact ⟨hvs, hh⟩
  | some t =>
    have hheap : (h.setThread t .dead).Conforms Q := hh.setThread t trivial
    cases hr : c.resumptions with
    | nil => exact ⟨hvs, hheap⟩
    | cons r rest =>
      obtain ⟨hfirst, hrest⟩ := List.forall_mem_cons.mp (hr ▸ hc.resumptions)
      exact ⟨hheap, goBack_holds hfirst hrest (answerOf_holds own r hvs)⟩

/-- The stack around a protected call is a part of the stack. -/
theorem catcher?_holds {callers : List Caller} (hcs : ∀ x ∈ callers, x.Holds Q) {level : Nat}
    {rest : List Caller} (hfound : catcher? callers = some (level, rest)) :
    ∀ x ∈ rest, x.Holds Q := by
  induction callers with
  | nil => cases hfound
  | cons x further ih =>
    obtain ⟨-, hfurther⟩ := List.forall_mem_cons.mp hcs
    unfold catcher? at hfound
    split at hfound
    · cases hfound
    next heq =>
      cases heq
      cases hfound
      exact hfurther
    next heq =>
      cases heq
      exact ih hfurther hfound

theorem raise_holds (own : Innate Q) (hh : h.Conforms Q) (hc : c.Waits Q) {error : Value}
    (he : Q error) : (raise h c error).Holds Q := by
  unfold raise
  cases hcatch : catcher? c.callers with
  | some found =>
    obtain ⟨level, callers⟩ := found
    exact ⟨hh, ⟨catcher?_holds hc.callers hcatch, hc.resumptions⟩,
      AllOf.cons (own _ rfl) (AllOf.single he)⟩
  | none =>
    cases c.thread with
    | none => exact ⟨he, hh⟩
    | some t =>
      have hheap : (h.setThread t .dead).Conforms Q := hh.setThread t trivial
      cases hr : c.resumptions with
      | nil => exact ⟨he, hheap⟩
      | cons r rest =>
        obtain ⟨hfirst, hrest⟩ := List.forall_mem_cons.mp (hr ▸ hc.resumptions)
        exact ⟨hheap, goBack_holds hfirst hrest (errorOf_holds own r he)⟩

end Machine

/-! ### Operators -/

/-- The values that an operator comes to have a property. -/
def Applied.Holds (Q : Value → Prop) : Applied → Prop
  | .value v => Q v
  | .handler f args => Q f ∧ AllOf Q args
  | .fault _ => True

namespace Operators

variable {h : Heap}

theorem handler?_holds (own : Innate Q) (hh : h.Conforms Q) {event : String} {x y f : Value}
    (hf : handler? h event x y = some f) : Q f := by
  unfold handler? at hf
  simp only at hf
  split at hf
  · cases hf
    exact hh.handler own x event
  · split at hf
    · cases hf
      exact hh.handler own y event
    · cases hf

theorem ofNumber_holds (own : Innate Q) (x : Except String Number) : (ofNumber x).Holds Q := by
  cases x with
  | ok n => exact own (.number n) rfl
  | error text => exact trivial

/-- An operator that asks for a handler hands both of its operands on. -/
theorem asked_holds (own : Innate Q) (hh : h.Conforms Q) (event text : String) {x y : Value}
    (hx : Q x) (hy : Q y) :
    (match handler? h event x y with
      | some f => Applied.handler f [x, y]
      | none => .fault text).Holds Q := by
  cases hf : handler? h event x y with
  | none => exact trivial
  | some f => exact ⟨handler?_holds own hh hf, AllOf.cons hx (AllOf.single hy)⟩

theorem arith_holds (own : Innate Q) (hh : h.Conforms Q) (op : ArithOp) {x y : Value} (hx : Q x)
    (hy : Q y) : (arith h op x y).Holds Q := by
  have hother : (arithOther h op x y).Holds Q := by
    unfold arithOther
    split
    · exact ofNumber_holds own _
    · exact asked_holds own hh _ _ hx hy
  unfold arith
  split
  · exact ofNumber_holds own _
  · exact hother

theorem concat_holds (own : Innate Q) (hh : h.Conforms Q) {x y : Value} (hx : Q x) (hy : Q y) :
    (concat h x y).Holds Q := by
  unfold concat
  split
  · exact own (.string _) rfl
  · exact asked_holds own hh _ _ hx hy

theorem before_holds (own : Innate Q) (hh : h.Conforms Q) (strict : Bool) {x y : Value} (hx : Q x)
    (hy : Q y) : (before h strict x y).Holds Q := by
  unfold before
  split
  · exact own (.bool _) rfl
  · exact own (.bool _) rfl
  · exact asked_holds own hh _ _ hx hy

theorem equal_holds (own : Innate Q) (hh : h.Conforms Q) {x y : Value} (hx : Q x) (hy : Q y) :
    (equal h x y).Holds Q := by
  unfold equal
  split
  · exact own (.bool _) rfl
  · split
    · split
      next f hf => exact ⟨handler?_holds own hh hf, AllOf.cons hx (AllOf.single hy)⟩
      · exact own (.bool _) rfl
    · exact own (.bool _) rfl

theorem compare_holds (own : Innate Q) (hh : h.Conforms Q) (op : Comparison) {x y : Value}
    (hx : Q x) (hy : Q y) : (compare h op x y).Holds Q := by
  cases op with
  | equal => exact equal_holds own hh hx hy
  | less => exact before_holds own hh true hx hy
  | lessEqual => exact before_holds own hh false hx hy

theorem askUnary_holds (own : Innate Q) (hh : h.Conforms Q) (event doing : String) {v : Value}
    (hv : Q v) : (askUnary h event doing v).Holds Q := by
  unfold askUnary
  simp only
  split
  · exact trivial
  · exact ⟨hh.handler own v event, AllOf.cons hv (AllOf.single hv)⟩

theorem unary_holds (own : Innate Q) (hh : h.Conforms Q) (op : UnaryOp) {v : Value} (hv : Q v) :
    (unary h op v).Holds Q := by
  unfold unary
  split
  · split
    · exact own (.number _) rfl
    · exact askUnary_holds own hh _ _ hv
  · split
    · exact ofNumber_holds own _
    · exact askUnary_holds own hh _ _ hv
  · exact own (.bool _) rfl

end Operators

namespace Machine

variable {h : Heap} {c : Control}

/-! ### Fields -/

/-- The values that asking comes to have a property. -/
def Asked.Holds (Q : Value → Prop) : Asked → Prop
  | .value v => Q v
  | .handler f args => Q f ∧ AllOf Q args
  | .request s args => Q (.service s) ∧ AllOf Q args
  | .fault _ => True

theorem ofApplied_holds {a : Applied} (ha : a.Holds Q) : (Asked.ofApplied a).Holds Q := by
  cases a <;> exact ha

/-- The methods of plans and cursors are services that everybody may call. -/
theorem method_holds (own : Innate Q) {methods : List (String × Service)}
    (hms : ∀ m ∈ methods, Value.isForeign (.service m.2) = false) (key : Value) :
    Q (method methods key) := by
  unfold method
  split
  next b =>
    cases hfind : methods.find? fun m => m.1.toUTF8 == b with
    | none => exact own _ rfl
    | some m => exact own _ (hms m (List.mem_of_find?_eq_some hfind))
  · exact own _ rfl

theorem index_holds (own : Innate Q) (hh : h.Conforms Q) {key : Value} (hkey : Q key) (left : Nat)
    {object : Value} (ho : Q object) : (index h left object key).Holds Q := by
  induction left generalizing object with
  | zero =>
    unfold index
    split
    · simp only
      split
      · exact trivial
      · exact hh.rawGet own _ _
    · exact trivial
    · contradiction
  | succ left ih =>
    -- a handler is called with the object and the key, or asked for the key in turn
    have hask : ∀ event, (if (h.handler object event).isFunction then
        Asked.handler (h.handler object event) [object, key]
        else index h left (h.handler object event) key).Holds Q := by
      intro event
      split
      · exact ⟨hh.handler own object event, AllOf.cons ho (AllOf.single hkey)⟩
      · exact ih (hh.handler own object event)
    have hrequest : (Asked.request .readField [object, key]).Holds Q :=
      ⟨own _ rfl, AllOf.cons ho (AllOf.single hkey)⟩
    unfold index
    simp only
    split
    · split
      · exact hh.rawGet own _ _
      · split
        · exact own _ rfl
        · exact hask _
    · exact hrequest
    · exact hrequest
    · exact method_holds own (by decide) key
    · exact method_holds own (by decide) key
    · split
      · exact trivial
      · exact hask _

theorem read_holds (own : Innate Q) (hh : h.Conforms Q) {object key : Value} (ho : Q object)
    (hkey : Q key) : (read h object key).Holds Q := index_holds own hh hkey maxHandlers ho

theorem noticed_holds (hh : h.Conforms Q) (object key : Value) :
    (noticed h object key).Conforms Q := by
  unfold noticed
  split
  · exact hh.touch _ key
  · exact hh

/-- The table in which a field is set and the values that are needed have a property. -/
def Stored.Holds (Q : Value → Prop) : Stored → Prop
  | .entry id => Q (.table id)
  | .asked a => a.Holds Q

theorem storePlace_holds (own : Innate Q) (hh : h.Conforms Q) {key value : Value} (hkey : Q key)
    (hvalue : Q value) (left : Nat) {object : Value} (ho : Q object) :
    (storePlace h key value left object).Holds Q := by
  induction left generalizing object with
  | zero =>
    unfold storePlace
    split
    · split
      · exact trivial
      · exact ho
    · exact trivial
    · contradiction
  | succ left ih =>
    -- A metamethod found on the way is called with the object that it was found for.
    have hargs : AllOf Q [object, key, value] :=
      AllOf.cons ho (AllOf.cons hkey (AllOf.single hvalue))
    unfold storePlace
    simp only
    split
    · split
      · exact ho
      · split
        · exact ho
        · split
          · exact ho
          · split
            · exact ⟨hh.handler own _ _, hargs⟩
            · exact ih (hh.handler own _ _)
    · exact ⟨own _ rfl, hargs⟩
    · exact trivial

theorem resolve_holds (own : Innate Q) (hh : h.Conforms Q) (hc : c.Waits Q) (position : Nat)
    {asked : Asked} (ha : asked.Holds Q) : (resolve h c position asked).Holds Q := by
  cases asked with
  | value v => exact ⟨hh, hc.withFocus (AllOf.single ha)⟩
  | handler f args => exact ⟨hh, hc.nest own position ha.1 ha.2⟩
  | request s args => exact ⟨ha.1, ha.2, hh, hc⟩
  | fault text => exact ⟨hh, hc.fault own text⟩

theorem lengthOf_holds (own : Innate Q) (hh : h.Conforms Q) {v : Value} (hv : Q v) :
    (lengthOf h v).1.Holds Q ∧ (lengthOf h v).2.Conforms Q := by
  unfold lengthOf
  split
  · exact ⟨own (.ofNat _) rfl, hh⟩
  · simp only
    split
    · exact ⟨own (.ofNat _) rfl, hh.length _⟩
    · exact ⟨⟨hh.handler own _ _, AllOf.cons hv (AllOf.single hv)⟩, hh⟩
  · exact ⟨⟨own _ rfl, AllOf.single hv⟩, hh⟩
  · exact ⟨trivial, hh⟩

end Machine

end StoredRoutine.Script
