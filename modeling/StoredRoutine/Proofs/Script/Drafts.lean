import Mathlib.Data.List.Forall2
import StoredRoutine.Script.Code.OfBlock

/-!
# `StoredRoutine.Proofs.Script.Drafts`: functions inside leave those around them alone

While a function inside is written, the functions around it wait. The only thing that happens to
them is that a variable of one further out becomes known to those on the way (`Draft.Gains`). Their
instructions, registers and variables in scope stay. `Drafting.Inside` says this of a computation
that ends in the function in which it starts.

`Inside` is a class: what a computation is put together from decides, and the search for instances
goes by just that. So each function needs its own instance and nothing else, and a match in one is
split by hand. A function inside is one in which another is opened, written and closed
(`Drafting.inside_function`), by induction on the tree that it is written from.
-/

set_option autoImplicit false
-- The search for an instance goes through all parts of a function.
set_option synthInstance.maxSize 1000

namespace StoredRoutine.Script

/-- A function that waits has come by variables of functions around it, and by nothing else. -/
def Draft.Gains (d d' : Draft) : Prop := ∃ outers, d' = { d with outers }

/-- The functions around one have done nothing else, either. -/
abbrev Gain (around around' : List Draft) : Prop := List.Forall₂ Draft.Gains around around'

theorem Draft.gains_refl (d : Draft) : d.Gains d := ⟨d.outers, rfl⟩

theorem Draft.Gains.trans {d d' d'' : Draft} (h : d.Gains d') (h' : d'.Gains d'') :
    d.Gains d'' := by
  obtain ⟨_, rfl⟩ := h
  obtain ⟨_, rfl⟩ := h'
  exact ⟨_, rfl⟩

theorem gain_refl (around : List Draft) : Gain around around := by
  induction around with
  | nil => exact .nil
  | cons d further ih => exact .cons d.gains_refl ih

theorem Gain.trans {around around' around'' : List Draft} (h : Gain around around')
    (h' : Gain around' around'') : Gain around around'' := by
  induction h generalizing around'' with
  | nil => exact h'
  | cons hd _ ih =>
    cases h' with
    | cons hd' hfurther => exact .cons (hd.trans hd') (ih hfurther)

namespace Drafting

variable {α β : Type}

theorem run_bind (x : Drafting α) (k : α → Drafting β) (d : Drafts) :
    (x >>= k) d = match x d with
      | .ok (a, d') => k a d'
      | .error f => .error f := by
  show (x d >>= fun (a, d') => k a d') = _
  cases x d <;> rfl

/-- A computation ends in the function in which it starts, and leaves those around it alone. -/
class Inside (x : Drafting α) : Prop where
  gain : ∀ d a d', x d = .ok (a, d') → Gain d.around d'.around

/-! ### Parts of computations -/

instance (a : α) : Inside (pure a) where
  gain d a d' h := by
    cases h
    exact gain_refl _

theorem Inside.bind {x : Drafting α} {k : α → Drafting β} [hx : Inside x]
    (hk : ∀ a, Inside (k a)) : Inside (x >>= k) where
  gain d b d'' h := by
    rw [run_bind] at h
    cases hd : x d with
    | error f =>
      rw [hd] at h
      cases h
    | ok r =>
      obtain ⟨a, d'⟩ := r
      rw [hd] at h
      exact (hx.gain d a d' hd).trans ((hk a).gain d' b d'' h)

instance {x : Drafting α} {k : α → Drafting β} [Inside x] [hk : ∀ a, Inside (k a)] :
    Inside (x >>= k) := Inside.bind hk

instance {x y : Drafting α} {c : Prop} [Decidable c] [hx : Inside x] [hy : Inside y] :
    Inside (if c then x else y) := by
  split
  · exact hx
  · exact hy

instance {f : α → Drafting Unit} (l : List α) [hf : ∀ a, Inside (f a)] : Inside (l.forM f) := by
  induction l with
  | nil => exact inferInstanceAs (Inside (pure ()))
  | cons a rest ih => exact inferInstanceAs (Inside (f a >>= fun _ => rest.forM f))

instance (line : Nat) (text : String) : Inside (fail line text : Drafting α) where
  gain d a d' h := by cases h

instance : Inside current where
  gain d a d' h := by
    cases h
    exact gain_refl _

instance (f : Draft → Draft) : Inside (change f) where
  gain d a d' h := by
    cases h
    exact gain_refl _

/-! ### Instructions and registers -/

instance : Inside position := by
  unfold position
  infer_instance

instance : Inside mark := by
  unfold mark
  infer_instance

instance (line : Nat) (i : Instruction) : Inside (emit line i) := by
  unfold emit
  infer_instance

instance (position : Nat) (f : Instruction → Instruction) : Inside (rewrite position f) := by
  unfold rewrite
  infer_instance

instance : Inside previous? := by
  unfold previous?
  infer_instance

instance : Inside takeBack := by
  unfold takeBack
  infer_instance

instance (v : Constant) : Inside (constantNumber v) := by
  unfold constantNumber
  refine .bind fun d => ?_
  split <;> infer_instance

instance : Inside level := by
  unfold level
  infer_instance

instance (count : Nat) : Inside (ensure count) := by
  unfold ensure
  infer_instance

instance (count : Nat) : Inside (reserve count) := by
  unfold reserve
  infer_instance

instance : Inside next := by
  unfold next
  infer_instance

instance (register : Nat) : Inside (release register) := by
  unfold release
  infer_instance

instance (a b : Nat) : Inside (releaseBoth a b) := by
  unfold releaseBoth
  infer_instance

instance : Inside releaseAll := by
  unfold releaseAll
  infer_instance

instance (count : Nat) : Inside (checkVariables count) := by
  unfold checkVariables
  infer_instance

instance (vs : List (String × VariableKind)) : Inside (declare vs) := by
  induction vs with
  | nil => exact inferInstanceAs (Inside (pure ()))
  | cons v rest ih =>
    unfold declare
    infer_instance

instance (count : Nat) : Inside (declareHidden count) := by
  unfold declareHidden
  infer_instance

/-! ### Variables of functions around -/

/-- A variable of a function around gets a place in this function, if there is one left. -/
theorem gains_of_newOuter {name : String} {kind : VariableKind} {capture : Capture}
    {d d' outer' : Draft} {further' around' : List Draft} {m : Meaning}
    (h : (if maxOuters ≤ d.outers.size then .error ⟨0, "too many upvalues"⟩
      else .ok (.outer d.outers.size kind,
        { d with outers := d.outers.push { name, kind, capture } }, outer' :: further') :
          Except SyntaxFault (Meaning × Draft × List Draft)) = .ok (m, d', around')) :
    d.Gains d' ∧ around' = outer' :: further' := by
  split at h
  · cases h
  · cases h
    exact ⟨⟨_, rfl⟩, rfl⟩

/-- The search for a name leaves at most new variables of functions around behind. -/
theorem lookupIn_gain {name : String} {d d' : Draft} {around around' : List Draft} {m : Meaning}
    (h : lookupIn name d around = .ok (m, d', around')) : d.Gains d' ∧ Gain around around' := by
  induction around generalizing d d' around' m with
  | nil =>
    unfold lookupIn at h
    split at h
    · cases h
      exact ⟨d.gains_refl, .nil⟩
    · split at h
      · cases h
        exact ⟨d.gains_refl, .nil⟩
      · cases h
        exact ⟨d.gains_refl, .nil⟩
  | cons outer further ih =>
    unfold lookupIn at h
    split at h
    · cases h
      exact ⟨d.gains_refl, gain_refl _⟩
    · split at h
      · cases h
        exact ⟨d.gains_refl, gain_refl _⟩
      · change (lookupIn name outer further >>= _) = _ at h
        cases hfound : lookupIn name outer further with
        | error f =>
          rw [hfound] at h
          cases h
        | ok r =>
          obtain ⟨m₁, outer', further'⟩ := r
          obtain ⟨houter, hfurther⟩ := ih hfound
          rw [hfound] at h
          have hadd (hnew : d.Gains d' ∧ around' = outer' :: further') :
              d.Gains d' ∧ Gain (outer :: further) around' :=
            ⟨hnew.1, hnew.2 ▸ .cons houter hfurther⟩
          -- what was found further out is a variable of each function on the way from there
          cases m₁ with
          | global =>
            cases h
            exact ⟨d.gains_refl, .cons houter hfurther⟩
          | outer i kind => exact hadd (gains_of_newOuter h)
          | «variable» v =>
            obtain ⟨_, kind, _⟩ := v
            cases kind with
            | plain => exact hadd (gains_of_newOuter h)
            | const => exact hadd (gains_of_newOuter h)
            | close => exact hadd (gains_of_newOuter h)
            | known value =>
              -- a constant that is known needs no place in the functions on the way
              cases h
              exact ⟨d.gains_refl, .cons houter hfurther⟩

theorem run_lookup (name : String) (d : Drafts) :
    lookup name d = match lookupIn name d.current d.around with
      | .ok (m, current, around) => .ok (m, { current, around })
      | .error f => .error f := by
  show (lookupIn name d.current d.around >>= fun r => pure (r, d)) >>= _ = _
  cases lookupIn name d.current d.around <;> rfl

instance (name : String) : Inside (lookup name) where
  gain d m d' h := by
    rw [run_lookup] at h
    cases hfound : lookupIn name d.current d.around with
    | error f =>
      rw [hfound] at h
      cases h
    | ok r =>
      rw [hfound] at h
      cases h
      exact (lookupIn_gain hfound).2

/-! ### Operands -/

instance (j : OpenJump) (keep : Option Place) (target : Nat) : Inside (land j keep target) := by
  unfold land
  infer_instance

instance (jumps : List OpenJump) (target : Nat) : Inside (landAll jumps target) := by
  unfold landAll
  infer_instance

instance (jumps : List OpenJump) : Inside (landHere jumps) := by
  unfold landHere
  infer_instance

instance : Inside jump := by
  unfold jump
  infer_instance

instance : Inside skip := by
  unfold skip
  infer_instance

instance (o : Operand) : Inside (releaseOperand o) := by
  unfold releaseOperand
  split <;> infer_instance

instance (o : Operand) : Inside (settle o) := by
  unfold settle
  split <;> try infer_instance
  split <;> infer_instance

instance (dest : Place) (o : Operand) : Inside (moveTo dest o) := by
  unfold moveTo
  split <;> infer_instance

instance (dest : Place) (o : Operand) : Inside (bringTo dest o) := by
  unfold bringTo
  infer_instance

instance (o : Operand) : Inside (toNext o) := by
  unfold toNext
  infer_instance

instance (o : Operand) : Inside (toAny o) := by
  unfold toAny
  refine .bind fun o => ?_
  split <;> infer_instance

instance (o : Operand) : Inside (toValue o) := by
  unfold toValue
  infer_instance

instance (o : Operand) : Inside (toConstant? o) := by
  unfold toConstant?
  split <;> infer_instance

instance (o : Operand) : Inside (toSource o) := by
  unfold toSource
  refine .bind fun v => ?_
  split <;> infer_instance

instance (key : Operand) : Inside (fieldKey? key) := by
  unfold fieldKey?
  split <;> infer_instance

instance (line : Nat) (object key : Operand) : Inside (field line object key) := by
  unfold field
  refine .bind fun constant? => ?_
  split
  · infer_instance
  · refine .bind fun p => ?_
    split <;> infer_instance

instance (o : Operand) : Inside (toHolder o) := by
  unfold toHolder
  split <;> infer_instance

instance (o : Operand) (holds : Bool) : Inside (branch o holds) := by
  unfold branch
  dsimp only
  repeat' first | infer_instance | split | refine .bind fun _ => ?_

instance (o : Operand) : Inside (goIfTrue o) := by
  unfold goIfTrue
  refine .bind fun o => ?_
  split <;> infer_instance

instance (o : Operand) : Inside (goIfFalse o) := by
  unfold goIfFalse
  refine .bind fun o => ?_
  split <;> infer_instance

instance (line : Nat) (target : AssignTarget) (o : Operand) : Inside (store line target o) := by
  unfold store
  split
  · infer_instance
  · infer_instance
  · refine .bind fun source => ?_
    split <;> infer_instance

/-! ### Lists of values -/

instance (o : Operand) (count : Option Nat) : Inside (setCount o count) := by
  unfold setCount
  split <;> infer_instance

instance (targets : Nat) (v : Values) : Inside (adjust targets v) := by
  unfold adjust
  infer_instance

instance (v : Values) : Inside (spread v) := by
  unfold spread
  infer_instance

instance (targets : List AssignTarget) (assigned : AssignTarget) :
    Inside (keepCopies targets assigned) := by
  unfold keepCopies
  refine .bind fun d => ?_
  cases assigned <;> infer_instance

instance (o : Operand) : Inside (assignAll.oneValue o) := by
  unfold assignAll.oneValue
  split <;> infer_instance

instance (line : Nat) (targets : List AssignTarget) (v : Values) :
    Inside (assignAll line targets v) := by
  unfold assignAll
  cases targets <;> infer_instance

/-! ### Operators -/

instance (line : Nat) (i : Instruction) : Inside (resulting line i) := by
  unfold resulting
  infer_instance

instance (o : Operand) : Inside (negate o) := by
  unfold negate
  split <;> infer_instance

instance (line : Nat) (op : UnaryOp) (o : Operand) : Inside (unary line op o) := by
  unfold unary
  refine .bind fun o => ?_
  split
  · infer_instance
  · split <;> infer_instance

instance (o : Operand) : Inside (leftOperand.equalOperand o) := by
  unfold leftOperand.equalOperand
  split
  · infer_instance
  · refine .bind fun source => ?_
    split <;> infer_instance

instance (op : BinaryOp) (o : Operand) : Inside (leftOperand op o) := by
  unfold leftOperand
  refine .bind fun o => ?_
  split <;> infer_instance

instance (a b : Operand) : Inside (inRegisters a b) := by
  unfold inRegisters
  infer_instance

instance (a : Operand) (n : Number) : Inside (withConstant a n) := by
  unfold withConstant
  infer_instance

instance (o : Operand) : Inside (numeralConstant? o) := by
  unfold numeralConstant?
  split <;> infer_instance

instance (a b : Operand) : Inside (maybeConstant a b) := by
  unfold maybeConstant
  refine .bind fun n? => ?_
  split <;> infer_instance

instance (short : Bool) (isConstant : Operand → Bool) (a b : Operand) :
    Inside (exchangeable short isConstant a b) := by
  unfold exchangeable
  dsimp only
  repeat' first | infer_instance | split | refine .bind fun _ => ?_

instance (op : ArithOp) (a b : Operand) : Inside (arithOperands op a b) := by
  unfold arithOperands
  split <;> try infer_instance
  all_goals split <;> infer_instance

instance (line : Nat) (op : ArithOp) (a b : Operand) : Inside (arith line op a b) := by
  unfold arith
  dsimp only
  split <;> infer_instance

instance (line : Nat) (op : Comparison) (a b : Source) (holds : Bool) :
    Inside (comparing line op a b holds) := by
  unfold comparing
  infer_instance

instance (line : Nat) (holds : Bool) (a b : Operand) : Inside (equality line holds a b) := by
  unfold equality
  dsimp only
  repeat' first | infer_instance | split | refine .bind fun _ => ?_

instance (line : Nat) (op : Comparison) (a b : Operand) : Inside (ordering line op a b) := by
  unfold ordering
  split <;> infer_instance

instance (line : Nat) (op : CompareOp) (a b : Operand) : Inside (compared line op a b) := by
  unfold compared
  split <;> infer_instance

instance (line : Nat) (a b : Operand) : Inside (joined line a b) := by
  unfold joined
  refine .bind fun q => .bind fun previous => ?_
  split <;> infer_instance

instance (line : Nat) (op : BinaryOp) (a b : Operand) : Inside (binary line op a b) := by
  unfold binary
  refine .bind fun b => ?_
  split <;> infer_instance

/-! ### Blocks, labels and jumps -/

instance (f : BlockDraft → BlockDraft) : Inside (changeBlock f) := by
  unfold changeBlock
  infer_instance

instance : Inside block := by
  unfold block
  infer_instance

instance (isLoop : Bool) : Inside (enterBlock isLoop) := by
  unfold enterBlock
  infer_instance

instance (name : String) : Inside (visibleLabel? name) := by
  unfold visibleLabel?
  infer_instance

instance (l : LabelPoint) : Inside (landJumps l) := by
  unfold landJumps
  infer_instance

instance (name : String) (isLast : Bool) : Inside (putLabel name isLast) := by
  unfold putLabel
  infer_instance

instance : Inside leaveBlock := by
  unfold leaveBlock
  dsimp only
  repeat' first | infer_instance | split | refine .bind fun _ => ?_

instance (line : Nat) (label : String) : Inside (jumpTo line label) := by
  unfold jumpTo
  refine .bind fun j => .bind fun l? => ?_
  split <;> infer_instance

instance (name : String) (isLast : Bool) : Inside (newLabel name isLast) := by
  unfold newLabel
  infer_instance

/-! ### Parts of expressions and statements -/

instance : Inside globals := by
  unfold globals
  refine .bind fun meaning => ?_
  split <;> infer_instance

instance (line : Nat) (name : String) : Inside (global line name) := by
  unfold global
  infer_instance

instance (line : Nat) (name : String) : Inside (named line name) := by
  unfold named
  refine .bind fun meaning => ?_
  split <;> infer_instance

instance (line : Nat) (held : Held) : Inside (namedTarget.fieldTarget line held) := by
  unfold namedTarget.fieldTarget
  split <;> infer_instance

instance (line : Nat) (name : String) : Inside (namedTarget line name) := by
  unfold namedTarget
  refine .bind fun meaning => ?_
  split <;> infer_instance

instance (line first : Nat) (args : Option Nat) : Inside (callFrom line first args) := by
  unfold callFrom
  infer_instance

instance (f : Filling) (count : Option Nat) : Inside (fillNow f count) := by
  unfold fillNow
  infer_instance

instance (f : Filling) : Inside (closeItem f) := by
  unfold closeItem
  split <;> infer_instance

instance (f : Filling) : Inside (closeItems f) := by
  unfold closeItems
  split
  · infer_instance
  · split <;> infer_instance

instance (names : List (String × LocalAttribute)) : Inside (checkClosing names) := by
  unfold checkClosing
  infer_instance

instance (names : List (String × LocalAttribute)) (v : Values) :
    Inside (declareValues names v) := by
  unfold declareValues
  split <;> infer_instance

instance (v : Values) : Inside (returnValues v) := by
  unfold returnValues
  dsimp only
  repeat' first | infer_instance | split

/-! ### Functions inside -/

/-- Writes a function inside, up to its own end, and answers its number. -/
def function (params : List String) (variadic : Bool) (names : List String)
    (body : Drafting Unit) : Drafting Nat := do
  openFunction params variadic names
  body
  let _ ← emit 0 (.result (← level) (some 0))
  leaveBlock
  closeFunction

/-- What is written between the opening and the end of a function inside. -/
def interior (params : List String) (body : Drafting Unit) : Drafting Unit := do
  checkVariables params.length
  change fun d => { d with params := params.length, blocks := [⟨0, false, false, [], []⟩] }
  declare (params.map fun p => (p, .plain))
  reserve params.length
  body
  let _ ← emit 0 (.result (← level) (some 0))
  leaveBlock

instance (params : List String) (body : Drafting Unit) [Inside body] :
    Inside (interior params body) := by
  unfold interior
  infer_instance

theorem run_function (params : List String) (variadic : Bool) (names : List String)
    (body : Drafting Unit) (d : Drafts) :
    function params variadic names body d =
      (interior params body >>= fun _ => closeFunction)
        ⟨{ variadic, sharedNames := names }, d.current :: d.around⟩ := by
  simp only [function, openFunction, interior, bind_assoc]
  rfl

/-- The function around gets the one inside, and may come by variables of functions around it. -/
theorem function_gain {params : List String} {variadic : Bool} {names : List String}
    {body : Drafting Unit} [hbody : Inside body] {d d' : Drafts} {i : Nat}
    (h : function params variadic names body d = .ok (i, d')) :
    i = d.current.functions.size ∧
      (∃ outers code, d'.current =
        { d.current with outers, functions := d.current.functions.push code }) ∧
      Gain d.around d'.around := by
  rw [run_function, run_bind] at h
  cases hd : interior params body ⟨{ variadic, sharedNames := names }, d.current :: d.around⟩ with
  | error f =>
    rw [hd] at h
    cases h
  | ok r =>
    obtain ⟨⟨⟩, current, around⟩ := r
    rw [hd] at h
    -- the first function that waited is the one around, and it is there again at the end
    cases Inside.gain _ _ _ hd with
    | cons houter hfurther =>
      obtain ⟨outers, rfl⟩ := houter
      cases h
      exact ⟨rfl, ⟨outers, _, rfl⟩, hfurther⟩

instance (params : List String) (variadic : Bool) (names : List String) (body : Drafting Unit)
    [hbody : Inside body] : Inside (function params variadic names body) where
  gain _ _ _ h := (function_gain h).2.2

/-- A function inside, and the instruction that makes it. -/
theorem function_endFunction (params : List String) (variadic : Bool) (names : List String)
    (body : Drafting Unit) (k : Operand → Drafting β) :
    (do
      openFunction params variadic names
      body
      let o ← endFunction
      k o) =
    (do
      let index ← function params variadic names body
      let o ← resulting 0 (.closure unset index)
      k o) := by
  simp only [function, endFunction, bind_assoc]

/-! ### Trees -/

mutual

theorem inside_expression : (e : Expr) → Inside (expression e)
  | .nil => by unfold expression; infer_instance
  | .bool _ => by unfold expression; infer_instance
  | .number _ => by unfold expression; infer_instance
  | .string _ => by unfold expression; infer_instance
  | .varargs => by unfold expression; infer_instance
  | .function params variadic body => by
    have hbody := inside_statements true body
    unfold expression
    -- opening a function ends in another one, so what is `Inside` is the function as a whole
    rw [function_endFunction]
    infer_instance
  | .name line n => by unfold expression; infer_instance
  | .index line object key => by
    have hobject := inside_expression object
    have hkey := inside_expression key
    unfold expression
    infer_instance
  | .call line callee args => by
    have hcallee := inside_expression callee
    have hargs := inside_expressions args
    unfold expression
    infer_instance
  | .methodCall fieldLine line object name args => by
    have hobject := inside_expression object
    have hargs := inside_expressions args
    unfold expression
    dsimp only
    repeat' first | infer_instance | split | refine .bind fun _ => ?_
  | .unary line op e => by
    have he := inside_expression e
    unfold expression
    infer_instance
  | .binary line op left right => by
    have hleft := inside_expression left
    have hright := inside_expression right
    unfold expression
    infer_instance
  | .and left right => by
    have hleft := inside_expression left
    have hright := inside_expression right
    unfold expression
    infer_instance
  | .or left right => by
    have hleft := inside_expression left
    have hright := inside_expression right
    unfold expression
    infer_instance
  | .single e => by
    have he := inside_expression e
    unfold expression
    infer_instance
  | .table fields => by
    have hfields (f : Filling) := inside_tableFields f fields
    unfold expression
    infer_instance

theorem inside_expressions : (es : List Expr) → Inside (expressions es)
  | [] => by unfold expressions; infer_instance
  | [e] => by
    have he := inside_expression e
    unfold expressions
    infer_instance
  | e :: e' :: rest => by
    have he := inside_expression e
    have hrest := inside_expressions (e' :: rest)
    unfold expressions
    infer_instance

theorem inside_tableFields (f : Filling) : (fields : List Field) → Inside (tableFields f fields)
  | [] => by unfold tableFields; infer_instance
  | .item e :: rest => by
    have he := inside_expression e
    have hrest (f : Filling) := inside_tableFields f rest
    unfold tableFields
    infer_instance
  | .entry line key value :: rest => by
    have hkey := inside_expression key
    have hvalue := inside_expression value
    have hrest (f : Filling) := inside_tableFields f rest
    unfold tableFields
    dsimp only
    repeat' first | infer_instance | split | refine .bind fun _ => ?_

theorem inside_assignTargets (found : List AssignTarget) :
    (targets : List Expr) → Inside (assignTargets found targets)
  | [] => by unfold assignTargets; infer_instance
  | .index line object key :: rest => by
    have hobject := inside_expression object
    have hkey := inside_expression key
    have hrest (found : List AssignTarget) := inside_assignTargets found rest
    unfold assignTargets
    repeat' first | infer_instance | split | refine .bind fun _ => ?_
  | .name line n :: rest => by
    have hrest (found : List AssignTarget) := inside_assignTargets found rest
    unfold assignTargets
    infer_instance
  | .nil :: _ | .bool _ :: _ | .number _ :: _ | .string _ :: _ | .varargs :: _
  | .function .. :: _ | .call .. :: _ | .methodCall .. :: _ | .unary .. :: _
  | .binary .. :: _ | .and .. :: _ | .or .. :: _ | .single _ :: _ | .table _ :: _ => by
    unfold assignTargets
    infer_instance

theorem inside_statement : (s : Statement) → Inside (statement s)
  | .declare names values => by
    have hvalues := inside_expressions values
    unfold statement
    infer_instance
  | .declareFunction name params variadic body => by
    have hbody := inside_statements true body
    unfold statement
    simp only [function_endFunction]
    infer_instance
  | .assign line targets values => by
    have htargets := inside_assignTargets [] targets
    have hvalues := inside_expressions values
    unfold statement
    infer_instance
  | .evaluate e => by
    have he := inside_expression e
    unfold statement
    infer_instance
  | .block body => by
    have hbody := inside_statements true body
    unfold statement
    infer_instance
  | .loopWhile condition body => by
    have hcondition := inside_expression condition
    have hbody := inside_statements true body
    unfold statement
    infer_instance
  | .loopUntil body condition => by
    have hcondition := inside_expression condition
    have hbody := inside_statements false body
    unfold statement
    infer_instance
  | .branch condition body otherwise => by
    have hcondition := inside_expression condition
    have hbody := inside_statements true body
    have hotherwise := inside_statements true otherwise
    unfold statement
    infer_instance
  | .loopCount line name bounds body => by
    have hbounds := inside_loopBounds bounds
    have hbody := inside_statements true body
    unfold statement
    dsimp only
    repeat' first | infer_instance | split | refine .bind fun _ => ?_
  | .loopEach line names sources body => by
    have hsources := inside_expressions sources
    have hbody := inside_statements true body
    unfold statement
    dsimp only
    repeat' first | infer_instance | split | refine .bind fun _ => ?_
  | .leave => by unfold statement; infer_instance
  | .result values => by
    have hvalues := inside_expressions values
    unfold statement
    infer_instance
  | .jump line label => by unfold statement; infer_instance
  | .label _ => by unfold statement; infer_instance

theorem inside_loopBounds : (bounds : List Expr) → Inside (loopBounds bounds)
  | [] => by unfold loopBounds; infer_instance
  | e :: rest => by
    have he := inside_expression e
    have hrest := inside_loopBounds rest
    unfold loopBounds
    infer_instance

theorem inside_statements (closing : Bool) : (body : List Statement) →
    Inside (statements closing body)
  | [] => by unfold statements; infer_instance
  | s :: rest => by
    have hs := inside_statement s
    have hrest := inside_statements closing rest
    unfold statements
    dsimp only
    repeat' first | infer_instance | split

end

end Drafting

end StoredRoutine.Script
