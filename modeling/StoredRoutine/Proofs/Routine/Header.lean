import StoredRoutine.Proofs.Script.Drafts
import StoredRoutine.Proofs.Script.Lexemes
import StoredRoutine.Routine.Definition
import StoredRoutine.Script.Machine.Calls

/-!
# `StoredRoutine.Proofs.Routine.Header`: what stands before the body of a routine

The parameters of a function are names with commas between them, or three dots, in parentheses.
`functionBody_parameters` says what they read as. In the body each of them stands for a register,
by its position (`lookupIn_openFunction`), and a call puts its arguments there
(`getElem?_startRegisters`). A function may have at most two hundred.

The source of a routine is a text, put together from names that the catalog holds and a body that
can be anything. What stands before the body reads the same whatever the body is: as the words of
`RoutineDefinition.headerWords`, all on the first line, where the body goes on (`reads_chunk`). If
the source can be read at all, it declares a variable and assigns to it, and the value starts with a
function that has the parameters of the header (`read_chunk`).

`chunk_header` puts this together and says which parameters these are, and where the arguments of a
call are found. The number of types plays no part in it, which is why a definition with fewer names
than types loses arguments (`chunk_loses`).
-/

set_option autoImplicit false

namespace StoredRoutine.Script

/-- The words of parameters, up to the closing parenthesis: names, or three dots. -/
def Token.ofParameters (names : Option (List String)) : List Token :=
  (names.elim [.symbol "..."] fun names => (names.map Token.name).intersperse (.symbol ",")) ++
    [.symbol ")"]

/-- The operand with which an expression of binary operators starts. -/
def Expr.firstOperand : Expr → Expr
  | .binary _ _ left _ => left.firstOperand
  | .and left _ => left.firstOperand
  | .or left _ => left.firstOperand
  | e => e

/-! ### Reading them -/

namespace Parser

open Token (onLine)

variable {α β : Type}

/-- What follows a part that is read. -/
theorem bind_of_ok {p : Parser α} {k : α → Parser β} {u u' : Unread} {a : α}
    (h : p u = .ok (a, u')) : (p >>= k) u = k a u' := by
  show (Except.bind (p u) fun r => k r.1 r.2) = _
  rw [h]
  rfl

/-- What is read in two parts. -/
theorem ok_of_bind {p : Parser α} {k : α → Parser β} {u : Unread} {r : β × Unread}
    (h : (p >>= k) u = .ok r) : ∃ a u', p u = .ok (a, u') ∧ k a u' = .ok r := by
  cases hp : p u with
  | error e =>
    have herror : (p >>= k) u = .error e := by
      show (Except.bind (p u) fun r => k r.1 r.2) = _
      rw [hp]
      rfl
    exact nomatch herror.symm.trans h
  | ok x => exact ⟨x.1, x.2, rfl, (bind_of_ok hp).symm.trans h⟩

/-- What follows a part that is known to be read. -/
theorem next_ok {p : Parser α} {k : α → Parser β} {u u' : Unread} {a : α} {r : β × Unread}
    (h : (p >>= k) u = .ok r) (hp : p u = .ok (a, u')) : k a u' = .ok r :=
  (bind_of_ok hp).symm.trans h

/-- What is nested is read as it is. -/
theorem ok_of_deeper {p : Parser α} {u u' : Unread} {a : α} (h : deeper p u = .ok (a, u')) :
    ∃ u'', p { u with depth := u.depth + 1 } = .ok (a, u'') := by
  have hrun : deeper p u = (if maxDepth ≤ u.depth then fail "chunk has too many levels"
      else do
        modify fun u => { u with depth := u.depth + 1 }
        let a ← p
        modify fun u => { u with depth := u.depth - 1 }
        return a) u := rfl
  rw [hrun] at h
  split at h
  · exact nomatch h
  · replace h := next_ok h (a := ()) rfl
    obtain ⟨a', u'', hp, h⟩ := ok_of_bind h
    obtain ⟨rfl, -⟩ := Prod.mk.inj (Except.ok.inj h)
    exact ⟨u'', hp⟩

/-- Names with commas between them are parameters. -/
theorem parameters_names (line : Nat) {names : List String} (hne : names ≠ []) {fuel : Nat}
    (hfuel : names.length ≤ fuel) (rest : List Lexeme) (last depth : Nat) :
    parameters fuel
        ⟨onLine line (Token.ofParameters (some names)) ++ rest, last, depth⟩ =
      .ok ((names, false), ⟨rest, line, depth⟩) := by
  induction names generalizing fuel last with
  | nil => exact absurd rfl hne
  | cons n names ih =>
    obtain _ | fuel := fuel
    · exact absurd hfuel (Nat.not_succ_le_zero _)
    unfold parameters
    cases names with
    | nil =>
      refine (bind_of_ok (a := false) rfl).trans ?_
      refine (bind_of_ok (a := n) rfl).trans ?_
      exact (bind_of_ok (a := false) rfl).trans rfl
    | cons n' names =>
      have hrest := ih (List.cons_ne_nil _ _) (Nat.le_of_succ_le_succ hfuel) line
      refine (bind_of_ok (a := false) rfl).trans ?_
      refine (bind_of_ok (a := n) rfl).trans ?_
      refine (bind_of_ok (a := true) rfl).trans ?_
      exact (bind_of_ok hrest).trans rfl

/-- After the opening parenthesis the parameters are read, and then the body from the line on which
they stand. -/
theorem functionBody_parameters (line : Nat) {names : Option (List String)}
    (hne : names ≠ some []) {fuel : Nat} (hfuel : (names.getD []).length < fuel)
    (rest : List Lexeme) (last depth : Nat) :
    functionBody (fuel + 1)
        ⟨onLine line (.symbol "(" :: Token.ofParameters names) ++ rest, last, depth⟩ =
      (do
        let body ← block fuel
        expectWord "end"
        pure (names.getD [], names.isNone, body) : Parser _) ⟨rest, line, depth⟩ := by
  unfold functionBody
  refine (bind_of_ok (a := ()) rfl).trans ?_
  cases names with
  | none =>
    obtain _ | fuel := fuel
    · exact absurd hfuel (Nat.not_lt_zero _)
    refine (bind_of_ok (a := false) rfl).trans ?_
    exact bind_of_ok (a := ([], true)) rfl
  | some names =>
    have hparameters := parameters_names line (fun h => hne (congrArg some h))
      (Nat.le_of_lt hfuel) rest line depth
    -- A list of names does not start with the closing parenthesis, so it is read as a list.
    cases names with
    | nil => exact absurd rfl hne
    | cons n names =>
      have hskip : skipSymbol ")"
          ⟨onLine line (Token.ofParameters (some (n :: names))) ++ rest, line, depth⟩ =
            .ok (false,
              ⟨onLine line (Token.ofParameters (some (n :: names))) ++ rest, line, depth⟩) := by
        cases names <;> rfl
      refine (bind_of_ok hskip).trans ?_
      exact bind_of_ok hparameters

/-- An expression that starts with a function is not looked up, wherever it is needed. -/
theorem neededAt_of_firstOperand {e : Expr} {params : List String} {variadic : Bool} {body : Block}
    (h : e.firstOperand = .function params variadic body) (line : Nat) : e.neededAt line = e := by
  cases e with
  | name _ _ => exact nomatch h
  | index _ _ _ => exact nomatch h
  | _ => rfl

/-- Operators that join further operands to an expression leave its first operand. -/
theorem firstOperand_joined {fuel power : Nat} {left e : Expr} {u u' : Unread}
    (h : joined fuel power left u = .ok (e, u')) {params : List String} {variadic : Bool}
    {body : Block} (hleft : left.firstOperand = .function params variadic body) :
    e.firstOperand = .function params variadic body := by
  induction fuel generalizing power left u with
  | zero => exact nomatch h
  | succ fuel ih =>
    unfold joined at h
    obtain ⟨next, u₁, -, h⟩ := ok_of_bind h
    cases hjoint : next.bind joint? with
    | none =>
      rw [hjoint] at h
      obtain ⟨rfl, -⟩ := Prod.mk.inj (Except.ok.inj h)
      exact hleft
    | some joint =>
      obtain ⟨op, leftPower, rightPower⟩ := joint
      rw [hjoint] at h
      by_cases hpower : power < leftPower
      · simp only [if_pos hpower] at h
        -- A round that goes on puts the operand on the left of the new one.
        obtain ⟨here, u₂, -, h⟩ := ok_of_bind h
        obtain ⟨-, u₃, -, h⟩ := ok_of_bind h
        obtain ⟨left', u₄, hneeded, h⟩ := ok_of_bind h
        obtain ⟨right, u₅, -, h⟩ := ok_of_bind h
        obtain ⟨right', u₆, -, h⟩ := ok_of_bind h
        obtain ⟨last, u₇, -, h⟩ := ok_of_bind h
        obtain ⟨hsame, -⟩ := Prod.mk.inj (Except.ok.inj hneeded)
        rw [neededAt_of_firstOperand hleft] at hsame
        subst hsame
        refine ih h ?_
        cases op with
        | binary op => cases op <;> exact hleft
        | and => exact hleft
        | or => exact hleft
      · simp only [if_neg hpower] at h
        obtain ⟨rfl, -⟩ := Prod.mk.inj (Except.ok.inj h)
        exact hleft

section Function

variable {line : Nat} {names : Option (List String)} {fuel : Nat} {rest : List Lexeme}
  {last depth : Nat} {u : Unread}

/-- The word for a function and its parameters: what is read is a function with these. -/
theorem simple_function (hne : names ≠ some []) (hfuel : (names.getD []).length < fuel) {e : Expr}
    (h : simple (fuel + 2)
      ⟨onLine line (.reserved "function" :: .symbol "(" :: Token.ofParameters names) ++ rest, last,
        depth⟩ = .ok (e, u)) :
    ∃ body, e.firstOperand = .function (names.getD []) names.isNone body := by
  unfold simple at h
  replace h := next_ok h (a := some (.reserved "function")) rfl
  replace h := next_ok h (a := ()) rfl
  obtain ⟨⟨params, variadic, body⟩, u₁, hbody, h⟩ := ok_of_bind h
  obtain ⟨rfl, -⟩ := Prod.mk.inj (Except.ok.inj h)
  replace hbody := (functionBody_parameters line hne hfuel rest line depth).symm.trans hbody
  obtain ⟨body', u₂, -, hbody⟩ := ok_of_bind hbody
  obtain ⟨-, u₃, -, hbody⟩ := ok_of_bind hbody
  have hfunction : (names.getD [], names.isNone, body') = (params, variadic, body) :=
    (Prod.mk.inj (Except.ok.inj hbody)).1
  simp only [Prod.mk.injEq] at hfunction
  obtain ⟨rfl, rfl, rfl⟩ := hfunction
  exact ⟨body', rfl⟩

/-- An expression that starts with the word for a function starts with the function. -/
theorem expr_function (hne : names ≠ some []) (hfuel : (names.getD []).length < fuel) {e : Expr}
    {power : Nat}
    (h : expr (fuel + 3) power
      ⟨onLine line (.reserved "function" :: .symbol "(" :: Token.ofParameters names) ++ rest, last,
        depth⟩ = .ok (e, u)) :
    ∃ body, e.firstOperand = .function (names.getD []) names.isNone body := by
  unfold expr at h
  obtain ⟨u₁, h⟩ := ok_of_deeper h
  replace h := next_ok h (a := line) rfl
  replace h := next_ok h (a := some (.reserved "function")) rfl
  obtain ⟨first, u₂, hfirst, h⟩ := ok_of_bind h
  obtain ⟨body, hoperand⟩ := simple_function hne hfuel hfirst
  exact ⟨body, firstOperand_joined h hoperand⟩

/-- Values that start with the word for a function: the first one starts with the function. -/
theorem valueList_function (hne : names ≠ some []) (hfuel : (names.getD []).length < fuel)
    {values : List Expr}
    (h : valueList (fuel + 5)
      ⟨onLine line (.reserved "function" :: .symbol "(" :: Token.ofParameters names) ++ rest, last,
        depth⟩ = .ok (values, u)) :
    ∃ e more body, values = e :: more ∧
      e.firstOperand = .function (names.getD []) names.isNone body := by
  unfold valueList at h
  obtain ⟨list, u₁, hlist, h⟩ := ok_of_bind h
  obtain ⟨here, u₂, -, h⟩ := ok_of_bind h
  obtain ⟨hvalues, -⟩ := Prod.mk.inj (Except.ok.inj h)
  unfold exprList at hlist
  obtain ⟨e, u₃, he, hlist⟩ := ok_of_bind hlist
  obtain ⟨body, hoperand⟩ := expr_function hne hfuel he
  have hneeded := neededAt_of_firstOperand hoperand
  -- the function is needed at its end, whether there are further values or not
  obtain ⟨more, rfl⟩ : ∃ more, list = e :: more := by
    obtain ⟨comma, u₄, -, hlist⟩ := ok_of_bind hlist
    split at hlist
    · obtain ⟨e', u₅, he', hlist⟩ := ok_of_bind hlist
      obtain ⟨more, u₆, -, hlist⟩ := ok_of_bind hlist
      obtain ⟨rfl, -⟩ := Prod.mk.inj (Except.ok.inj he')
      obtain ⟨rfl, -⟩ := Prod.mk.inj (Except.ok.inj hlist)
      exact ⟨more, by rw [hneeded]⟩
    · obtain ⟨rfl, -⟩ := Prod.mk.inj (Except.ok.inj hlist)
      exact ⟨[], rfl⟩
  subst hvalues
  cases more with
  | nil => exact ⟨e, [], _, by simp [hneeded], hoperand⟩
  | cons e' more => exact ⟨e, _, _, rfl, hoperand⟩

end Function

/-- An assignment of a function to a variable, as far as it is known: the function may be followed
by operators and by further values. -/
theorem statement_function {line : Nat} {target : String} {names : Option (List String)}
    (hne : names ≠ some []) {fuel : Nat} (hfuel : (names.getD []).length < fuel)
    {rest : List Lexeme} {last depth : Nat} {s : Block} {u : Unread}
    (h : statement (fuel + 8)
      ⟨onLine line (.name target :: .symbol "=" :: .reserved "function" :: .symbol "(" ::
        Token.ofParameters names) ++ rest, last, depth⟩ = .ok (s, u)) :
    ∃ line' e values body, s = [.assign line' [.name line target] (e :: values)] ∧
      e.firstOperand = .function (names.getD []) names.isNone body := by
  unfold statement at h
  obtain ⟨u₁, h⟩ := ok_of_deeper h
  replace h := next_ok h (a := line) rfl
  replace h := next_ok h (a := some (.name target)) rfl
  obtain ⟨assigned, u₂, hassigned, h⟩ := ok_of_bind h
  obtain ⟨rfl, -⟩ := Prod.mk.inj (Except.ok.inj h)
  -- The statement begins with a name, and the equals sign makes it an assignment.
  unfold exprStatement at hassigned
  replace hassigned := next_ok hassigned (a := .name line target) rfl
  replace hassigned := next_ok hassigned (a := false) rfl
  replace hassigned := next_ok hassigned (a := true) rfl
  simp only [Bool.false_or, if_true] at hassigned
  obtain ⟨⟨targets, values⟩, u₃, hvalues, hassigned⟩ := ok_of_bind hassigned
  obtain ⟨line', u₄, -, hassigned⟩ := ok_of_bind hassigned
  obtain ⟨rfl, -⟩ := Prod.mk.inj (Except.ok.inj hassigned)
  unfold assignment isTarget at hvalues
  simp only [if_true] at hvalues
  replace hvalues := next_ok hvalues (a := false) rfl
  simp only [Bool.false_eq_true, if_false] at hvalues
  replace hvalues := next_ok hvalues (a := ()) rfl
  obtain ⟨values', u₅, hlist, hvalues⟩ := ok_of_bind hvalues
  obtain ⟨hpair, -⟩ := Prod.mk.inj (Except.ok.inj hvalues)
  obtain ⟨rfl, rfl⟩ := Prod.mk.inj hpair
  obtain ⟨e, more, body, rfl, he⟩ := valueList_function hne hfuel hlist
  exact ⟨line', e, more, body, rfl, he⟩

/-- A block that does not end here goes on with a statement. -/
theorem ok_of_block {fuel : Nat} {u : Unread} {r : Block × Unread} (h : block (fuel + 1) u = .ok r)
    (hend : atBlockEnd u = .ok (false, u)) (hreturn : skipWord "return" u = .ok (false, u)) :
    ∃ first u₁ rest u₂, statement fuel u = .ok (first, u₁) ∧ block fuel u₁ = .ok (rest, u₂) ∧
      r.1 = first ++ rest := by
  unfold block at h
  replace h := next_ok h hend
  simp only [Bool.false_eq_true, if_false] at h
  replace h := next_ok h hreturn
  simp only [Bool.false_eq_true, if_false] at h
  obtain ⟨first, u₁, hfirst, h⟩ := ok_of_bind h
  obtain ⟨rest, u₂, hrest, h⟩ := ok_of_bind h
  obtain rfl := Except.ok.inj h
  exact ⟨first, u₁, rest, u₂, hfirst, hrest, rfl⟩

end Parser

theorem ok_of_except_bind {ε α β : Type} {x : Except ε α} {k : α → Except ε β} {r : β}
    (h : (x >>= k) = .ok r) : ∃ a, x = .ok a ∧ k a = .ok r := by
  cases x with
  | error e => exact nomatch h
  | ok a => exact ⟨a, rfl, h⟩

/-- A source that can be read is a block. -/
theorem Block.ok_of_read {source : ByteArray} {b : Block} (h : Block.read source = .ok b) :
    ∃ tokens u, Token.readAll source = .ok tokens ∧
      Parser.block (16 * tokens.length + 16) ⟨tokens, 1, 0⟩ = .ok (b, u) := by
  obtain ⟨tokens, htokens, h⟩ := ok_of_except_bind h
  obtain ⟨⟨body, u⟩, hblock, h⟩ := ok_of_except_bind h
  dsimp only at h
  split at h
  · obtain rfl := Except.ok.inj h
    exact ⟨tokens, u, htokens, hblock⟩
  · exact nomatch h

/-! ### Their registers -/

namespace Drafting

/-- The variables in scope, the last one first: their names and their registers. -/
def scope (d : Draft) : List (String × Nat) := d.locals.map fun v => (v.name, v.place.register)

/-- Variables that are brought into scope take the next registers. -/
theorem declare_plain (names : List String) (d : Drafts) :
    ∃ d' : Draft, declare (names.map fun n => (n, .plain)) d = .ok ((), ⟨d', d.around⟩) ∧
      scope d' = (names.zipIdx (levelOf d.current.locals)).reverse ++ scope d.current ∧
      d'.params = d.current.params ∧ d'.variadic = d.current.variadic ∧
      d'.used = d.current.used := by
  induction names generalizing d with
  | nil => exact ⟨d.current, rfl, rfl, rfl, rfl, rfl⟩
  | cons n names ih =>
    let r := levelOf d.current.locals
    let shared := d.current.sharedNames.contains n
    let declared : Draft :=
      { d.current with locals := ⟨n, .plain, ⟨r, shared⟩⟩ :: d.current.locals }
    -- a variable that functions inside share has an instruction of its own
    obtain ⟨d₁, hfirst, hlocals, hparams, hvariadic, hused⟩ : ∃ d₁ : Draft,
        (declare ((n, .plain) :: names.map fun n => (n, .plain))) d =
          declare (names.map fun n => (n, .plain)) ⟨d₁, d.around⟩ ∧
        d₁.locals = declared.locals ∧ d₁.params = d.current.params ∧
        d₁.variadic = d.current.variadic ∧ d₁.used = d.current.used := by
      have hdeclare : declare ((n, .plain) :: names.map fun n => (n, .plain)) d =
          (do
            if shared then
              let _ ← emit 0 (.share r)
            declare (names.map fun n => (n, .plain)) : Drafting Unit) ⟨declared, d.around⟩ := rfl
      rw [hdeclare]
      generalize shared = shared
      cases shared with
      | false => exact ⟨declared, rfl, rfl, rfl, rfl, rfl⟩
      | true => exact ⟨_, rfl, rfl, rfl, rfl, rfl⟩
    obtain ⟨d', hrest, hscope, hparams', hvariadic', hused'⟩ := ih ⟨d₁, d.around⟩
    refine ⟨d', hfirst.trans hrest, ?_, hparams'.trans hparams, hvariadic'.trans hvariadic,
      hused'.trans hused⟩
    have hlevel : levelOf d₁.locals = r + 1 := by rw [hlocals]; rfl
    have hnew : scope d₁ = (n, r) :: scope d.current := by
      unfold scope
      rw [hlocals]
      rfl
    rw [hscope, hlevel, hnew, List.zipIdx_cons, List.reverse_cons, List.append_assoc]
    rfl

theorem run_checkVariables (count : Nat) (d : Drafts) :
    checkVariables count d =
      if maxVariables < d.current.locals.length + count then
        .error ⟨0, "too many local variables"⟩
      else .ok ((), d) := by
  unfold checkVariables
  rw [run_bind]
  show (if maxVariables < d.current.locals.length + count then _ else _ : Drafting Unit) d = _
  split <;> rfl

theorem run_reserve {count : Nat} {d : Drafts} (h : ¬maxRegisters ≤ d.current.used + count) :
    reserve count d =
      .ok ((), ⟨{ d.current with
        size := max d.current.size (d.current.used + count), used := d.current.used + count },
        d.around⟩) := by
  have hensure : ensure count d =
      .ok ((), ⟨{ d.current with size := max d.current.size (d.current.used + count) },
        d.around⟩) := by
    unfold ensure
    rw [run_bind]
    show (if maxRegisters ≤ d.current.used + count then _ else _ : Drafting Unit) d = _
    rw [if_neg h]
    rfl
  unfold reserve
  rw [run_bind, hensure]
  rfl

/-- Inside a function that is begun, its parameters are in scope, each with the register of its
number. -/
theorem openFunction_ok {names : List String} (hcount : names.length ≤ maxVariables)
    (variadic : Bool) (sharedNames : List String) (d : Drafts) :
    ∃ d' : Draft, openFunction names variadic sharedNames d =
        .ok ((), ⟨d', d.current :: d.around⟩) ∧
      scope d' = names.zipIdx.reverse ∧ d'.params = names.length ∧ d'.variadic = variadic := by
  let begun : Draft :=
    { variadic, sharedNames, params := names.length, blocks := [⟨0, false, false, [], []⟩] }
  obtain ⟨d', hdeclare, hscope, hparams, hvariadic, hused⟩ :=
    declare_plain names ⟨begun, d.current :: d.around⟩
  -- Two hundred names are few enough for the check of the names and for the registers.
  have hcheck : ¬maxVariables < ([] : List LocalVariable).length + names.length := by
    rw [List.length_nil, Nat.zero_add]
    exact Nat.not_lt.mpr hcount
  have hroom : ¬maxRegisters ≤ d'.used + names.length := by
    rw [hused]
    show ¬255 ≤ 0 + names.length
    have : names.length ≤ 200 := hcount
    omega
  refine ⟨{ d' with size := max d'.size (d'.used + names.length), used := d'.used + names.length },
    ?_, ?_, hparams, hvariadic⟩
  · unfold openFunction
    rw [run_bind]
    show (do
      checkVariables names.length
      _ : Drafting Unit) ⟨{ variadic, sharedNames }, d.current :: d.around⟩ = _
    rw [run_bind, run_checkVariables, if_neg hcheck]
    show (do
      declare (names.map fun p => (p, .plain))
      reserve names.length : Drafting Unit) ⟨begun, d.current :: d.around⟩ = _
    rw [run_bind, hdeclare]
    exact run_reserve (d := ⟨d', _⟩) hroom
  · show scope d' = _
    rw [hscope]
    exact List.append_nil _

/-- More parameters than there may be variables are refused. -/
theorem openFunction_tooMany {names : List String} (hcount : maxVariables < names.length)
    (variadic : Bool) (sharedNames : List String) (d : Drafts) :
    openFunction names variadic sharedNames d = .error ⟨0, "too many local variables"⟩ := by
  have hcheck : maxVariables < ([] : List LocalVariable).length + names.length := by
    rwa [List.length_nil, Nat.zero_add]
  unfold openFunction
  rw [run_bind]
  show (do
    checkVariables names.length
    _ : Drafting Unit) ⟨{ variadic, sharedNames }, d.current :: d.around⟩ = _
  rw [run_bind, run_checkVariables, if_pos hcheck]

/-- The name of a parameter means the register of the same number. -/
theorem lookupIn_of_scope {names : List String} (hnames : names.Nodup) {d : Draft}
    (hscope : scope d = names.zipIdx.reverse) {i : Nat} {name : String}
    (hi : names[i]? = some name) (around : List Draft) :
    ∃ v, lookupIn name d around = .ok (.variable v, d, around) ∧ v.place.register = i := by
  -- a variable in scope is the parameter with the number of its register
  have hmem : ∀ n r, (n, r) ∈ scope d ↔ names[r]? = some n := by
    intro n r
    rw [hscope, List.mem_reverse, List.mk_mem_zipIdx_iff_getElem?]
  obtain ⟨v₀, hv₀, heq⟩ := List.mem_map.mp ((hmem name i).mpr hi)
  have hname₀ : v₀.name = name := (Prod.mk.inj heq).1
  cases hfind : d.locals.find? fun v => v.name == name with
  | none =>
    have hno := List.find?_eq_none.mp hfind v₀ hv₀
    exact absurd (beq_iff_eq.mpr hname₀) hno
  | some v =>
    have hname : v.name = name := by simpa using List.find?_some hfind
    have hregister : names[v.place.register]? = some name := by
      rw [← hmem, ← hname]
      exact List.mem_map_of_mem (List.mem_of_find?_eq_some hfind)
    refine ⟨v, ?_, ?_⟩
    · unfold lookupIn
      rw [hfind]
    · obtain ⟨hlt, -⟩ := List.getElem?_eq_some_iff.mp hregister
      exact (List.getElem?_inj hlt hnames).mp (hregister.trans hi.symm)

end Drafting

/-! ### Their arguments -/

/-- A parameter starts with the argument at its position. -/
theorem Machine.getElem?_startRegisters {code : FunctionCode} {args : List Value} {i : Nat}
    (hi : i < code.params) {v : Value} (hv : args[i]? = some v) :
    (startRegisters code args)[i]? = some v := by
  have hgiven : (args.take code.params)[i]? = some v := by
    rw [List.getElem?_take_of_lt hi, hv]
  obtain ⟨hlt, -⟩ := List.getElem?_eq_some_iff.mp hgiven
  unfold startRegisters
  dsimp only
  rw [Array.getElem?_append_left (by simpa using hlt), List.getElem?_toArray, hgiven]

end StoredRoutine.Script

namespace StoredRoutine

/-! ### The name of the function -/

namespace Identifier

theorem isShaped_cons {c : Char} {cs : List Char} (hc : isStart c = true)
    (hcs : ∀ x ∈ cs, isPart x = true) : isShaped (c :: cs) = true :=
  Bool.and_eq_true_iff.mpr ⟨hc, List.all_eq_true.mpr hcs⟩

/-- A character of an identifier that is no digit can start one. -/
theorem isStart_of_isPart {c : Char} (h : isPart c = true) (hdigit : c.isDigit = false) :
    isStart c = true := by
  simp only [isPart, isStart, Char.isAlphanum, hdigit, Bool.or_false] at h ⊢
  exact h

/-- A reserved word with an underscore behind it is none, and other words need none. -/
theorem isValid_unreserved {word : List Char} (hword : isShaped word = true) :
    isValid (if reserved.contains (String.ofList word) then String.ofList word ++ "_"
      else String.ofList word) = true := by
  split
  next hreserved =>
    have hlonger : ∀ w ∈ reserved, isValid (w ++ "_") = true := by decide
    exact hlonger _ (List.contains_iff_mem.mp hreserved)
  next hreserved =>
    rw [isValid, String.toList_ofList, hword, Bool.true_and]
    simpa using hreserved

/-- Any name can be turned into an identifier. -/
theorem isValid_sanitize (name : String) : isValid (sanitize name) = true := by
  unfold sanitize
  dsimp only
  generalize hcs : (name.toList.map fun c => if isPart c = true then c else '_') = cs
  have hparts : ∀ c ∈ cs, isPart c = true := by
    intro c hc
    rw [← hcs] at hc
    obtain ⟨x, -, rfl⟩ := List.mem_map.mp hc
    by_cases hx : isPart x = true
    · rwa [if_pos hx]
    · rw [if_neg hx]
      decide
  cases cs with
  | nil => exact isValid_unreserved (by decide)
  | cons c rest =>
    have hshaped : isShaped (if c.isDigit = true then '_' :: c :: rest else c :: rest) = true := by
      split
      · exact isShaped_cons (by decide) hparts
      next hdigit =>
        exact isShaped_cons
          (isStart_of_isPart (hparts c List.mem_cons_self) (by simpa using hdigit))
          fun x hx => hparts x (List.mem_cons_of_mem _ hx)
    exact isValid_unreserved hshaped

end Identifier

namespace RoutineDefinition

open Script
open Token (Reads)

/-- The words before the body. -/
def headerWords (d : RoutineDefinition) : List Token :=
  let name := Identifier.sanitize d.name
  [.reserved "local", .name name, .name name, .symbol "=", .reserved "function", .symbol "("] ++
    Token.ofParameters d.parameters?

/-- What stands after the header. -/
def bodyText (d : RoutineDefinition) : String :=
  " " ++ d.source ++ "\nend return " ++ Identifier.sanitize d.name

/-- The arguments have names in the body if they are given different identifiers, and at least one
of them. Then they are the parameters. -/
theorem parameters?_eq_some_iff {d : RoutineDefinition} {names : List String} :
    d.parameters? = some names ↔ d.argNames = names ∧ names ≠ [] ∧ names.Nodup ∧
      ∀ n ∈ names, Identifier.isValid n = true := by
  unfold parameters?
  split
  next h =>
    simp only [Bool.and_eq_true, Bool.not_eq_true', List.isEmpty_eq_false_iff, List.all_eq_true,
      decide_eq_true_eq] at h
    obtain ⟨⟨hne, hvalid⟩, hnodup⟩ := h
    constructor
    · intro heq
      obtain rfl := Option.some.inj heq
      exact ⟨rfl, hne, hnodup, hvalid⟩
    · rintro ⟨rfl, -⟩
      rfl
  next h =>
    constructor
    · intro heq
      exact nomatch heq
    rintro ⟨rfl, hne, hnodup, hvalid⟩
    refine absurd ?_ h
    simp only [Bool.and_eq_true, Bool.not_eq_true', List.isEmpty_eq_false_iff, List.all_eq_true,
      decide_eq_true_eq]
    exact ⟨⟨hne, hvalid⟩, hnodup⟩

theorem reads_name (line : Nat) {name : String} (h : Identifier.isValid name = true) {c : Char}
    {rest : List Char} (hc : Identifier.isPart c = false) :
    Reads line (Text.byteChars name.toUTF8 ++ c :: rest) [.name name] (c :: rest) := by
  rw [← Token.ofWord_of_isValid h]
  exact Token.reads_word_cons line (Bool.and_eq_true_iff.mp h).1 hc rest

/-- Names separated by commas read as such, and so does the parenthesis behind them. -/
theorem reads_names (line : Nat) {names : List String} (hne : names ≠ [])
    (hvalid : ∀ n ∈ names, Identifier.isValid n = true) (rest : List Char) :
    Reads line (Text.byteChars (", ".intercalate names).toUTF8 ++ ')' :: rest)
      (Token.ofParameters (some names)) rest := by
  induction names with
  | nil => exact absurd rfl hne
  | cons n names ih =>
    obtain ⟨hn, hnames⟩ := List.forall_mem_cons.mp hvalid
    cases names with
    | nil =>
      exact (reads_name line hn (by decide)).trans (Token.reads_token (by decide) (by decide) rfl)
    | cons n' names =>
      have hrest := ih (by simp) hnames
      obtain ⟨tail, htail⟩ : ∃ tail,
          Text.byteChars (", ".intercalate (n' :: names)).toUTF8 ++ ')' :: rest = tail := ⟨_, rfl⟩
      rw [htail] at hrest
      have hcomma : Reads line (',' :: ' ' :: tail) [.symbol ","] tail :=
        Reads.trans (Token.reads_token (by decide) (by decide) rfl) (Token.reads_blank line tail)
      have hall := (reads_name line hn (by decide)).trans (hcomma.trans hrest)
      have hseparator : Text.byteChars ", ".toUTF8 = [',', ' '] := rfl
      rw [String.intercalate_cons_cons, Token.byteChars_append, Token.byteChars_append, hseparator,
        List.append_assoc, htail, List.append_assoc]
      exact hall

/-- The parameters and the parenthesis behind them read as such. -/
theorem reads_parameters (d : RoutineDefinition) (rest : List Char) :
    Reads 1 (Text.byteChars (d.parameters?.elim "..." (", ".intercalate ·)).toUTF8 ++ ')' :: rest)
      (Token.ofParameters d.parameters?) rest := by
  cases hnames : d.parameters? with
  | none =>
    have hdots : Reads 1 ('.' :: '.' :: '.' :: ')' :: rest) [.symbol "..."] (')' :: rest) :=
      Token.reads_token (by decide) (by decide) rfl
    exact hdots.trans (Token.reads_token (by decide) (by decide) rfl)
  | some names =>
    obtain ⟨rfl, hne, -, hvalid⟩ := parameters?_eq_some_iff.mp hnames
    exact reads_names 1 hne hvalid rest

/-- The source reads as the words of the header, all on the first line, and what the body reads as
from the first line on. -/
theorem reads_chunk (d : RoutineDefinition) :
    Reads 1 (Text.byteChars d.chunk.toUTF8) d.headerWords
      (Text.byteChars d.bodyText.toUTF8) := by
  have hname := Identifier.isValid_sanitize d.name
  have hshaped := (Bool.and_eq_true_iff.mp hname).1
  have hchars : Text.byteChars d.chunk.toUTF8 = Text.byteChars "local".toUTF8 ++ ' ' ::
      (Text.byteChars (Identifier.sanitize d.name).toUTF8 ++ ' ' ::
        (Text.byteChars (Identifier.sanitize d.name).toUTF8 ++ ' ' :: '=' :: ' ' ::
          (Text.byteChars "function".toUTF8 ++ '(' ::
            (Text.byteChars (d.parameters?.elim "..." (", ".intercalate ·)).toUTF8 ++ ')' ::
              Text.byteChars d.bodyText.toUTF8)))) := by
    have hlocal : Text.byteChars "local ".toUTF8 = Text.byteChars "local".toUTF8 ++ [' '] := rfl
    have hblank : Text.byteChars " ".toUTF8 = [' '] := rfl
    have hfunction : Text.byteChars " = function(".toUTF8 =
        ' ' :: '=' :: ' ' :: (Text.byteChars "function".toUTF8 ++ ['(']) := rfl
    have hclose : Text.byteChars ") ".toUTF8 = [')', ' '] := rfl
    unfold chunk bodyText
    simp only [Token.byteChars_append, hlocal, hblank, hfunction, hclose, List.append_assoc,
      List.cons_append, List.nil_append]
  -- Each piece of the header is read as one word; only the name and the parameters differ from
  -- definition to definition.
  rw [hchars]
  have hwords : d.headerWords =
      [Token.ofWord "local"] ++ ([Token.ofWord (Identifier.sanitize d.name)] ++
        ([Token.ofWord (Identifier.sanitize d.name)] ++ ([.symbol "="] ++
          ([Token.ofWord "function"] ++
            ([.symbol "("] ++ Token.ofParameters d.parameters?))))) := by
    rw [Token.ofWord_of_isValid hname]
    rfl
  rw [hwords]
  have hequals (rest : List Char) : Reads 1 ('=' :: ' ' :: rest) [.symbol "="] rest :=
    Reads.trans (Token.reads_token (by decide) (by decide) rfl) (Token.reads_blank 1 rest)
  have hopen (rest : List Char) : Reads 1 ('(' :: rest) [.symbol "("] rest :=
    Token.reads_token (by decide) (by decide) rfl
  exact (Token.reads_word_blank 1 (by decide) _).trans <|
    (Token.reads_word_blank 1 hshaped _).trans <| (Token.reads_word_blank 1 hshaped _).trans <|
    (hequals _).trans <| (Token.reads_word_cons 1 (by decide) (by decide) _).trans <|
    (hopen _).trans (d.reads_parameters _)

theorem parameters?_ne_nil (d : RoutineDefinition) : d.parameters? ≠ some [] := fun h =>
  (parameters?_eq_some_iff.mp h).2.1 rfl

/-- The words of the header are more than the parameters. -/
theorem length_headerWords (d : RoutineDefinition) :
    (d.parameters?.getD []).length < d.headerWords.length := by
  unfold headerWords Token.ofParameters
  cases d.parameters? with
  | none => exact Nat.zero_lt_succ _
  | some names =>
    simp only [Option.getD_some, Option.elim_some, List.length_append, List.length_intersperse,
      List.length_map, List.length_cons, List.length_nil]
    omega

/-- A source that can be read declares a variable, and assigns to it values of which the first one
starts with a function that has the parameters of the header. -/
theorem read_chunk {d : RoutineDefinition} {b : Block} (h : Block.read d.chunk.toUTF8 = .ok b) :
    ∃ line e values body rest,
      b = .declare [(Identifier.sanitize d.name, .plain)] [] ::
        .assign line [.name 1 (Identifier.sanitize d.name)] (e :: values) :: rest ∧
      e.firstOperand = .function (d.parameters?.getD []) d.parameters?.isNone body := by
  obtain ⟨tokens, u, htokens, hblock⟩ := Block.ok_of_read h
  obtain ⟨words, rfl⟩ : ∃ words, tokens = Token.onLine 1 d.headerWords ++ words := by
    rw [Token.readAll_eq_readFrom, d.reads_chunk] at htokens
    cases hbody : Token.readFrom 1 (Text.byteChars d.bodyText.toUTF8) with
    | error e =>
      rw [hbody] at htokens
      exact nomatch htokens
    | ok words =>
      rw [hbody] at htokens
      exact ⟨words, (Except.ok.inj htokens).symm⟩
  -- The parser is given more steps than there are parameters, as each of them is a token.
  have henough : (d.parameters?.getD []).length <
      16 * (Token.onLine 1 d.headerWords ++ words).length := by
    have hlong := d.length_headerWords
    rw [Token.onLine, List.length_append, List.length_map]
    omega
  generalize 16 * (Token.onLine 1 d.headerWords ++ words).length = fuel at hblock henough
  obtain ⟨first, u₁, stmts, u₂, hfirst, hrest, rfl⟩ := Parser.ok_of_block hblock rfl rfl
  have hdeclare : Parser.statement (fuel + 15) ⟨Token.onLine 1 d.headerWords ++ words, 1, 0⟩ =
      .ok ([.declare [(Identifier.sanitize d.name, .plain)] []],
        ⟨Token.onLine 1 (d.headerWords.drop 2) ++ words, 1, 0⟩) := rfl
  obtain ⟨rfl, rfl⟩ := Prod.mk.inj (Except.ok.inj (hdeclare.symm.trans hfirst))
  obtain ⟨second, u₃, more, u₄, hsecond, -, rfl⟩ := Parser.ok_of_block hrest rfl rfl
  have hmore : (d.parameters?.getD []).length < fuel + 6 := by omega
  obtain ⟨line, e, values, body, rfl, he⟩ :=
    Parser.statement_function d.parameters?_ne_nil hmore hsecond
  exact ⟨line, e, values, body, more, rfl, he⟩

/-! ### Parameters and arguments -/

/-- The argument at a position can be had in the body. Among parameters it has a name, which there
stands for the register of its number, and a call puts the argument into this register. Otherwise it
is one of the further arguments, which are all arguments then. -/
def ReachesArgument (d : RoutineDefinition) (i : Nat) : Prop :=
  match d.parameters? with
  | some names =>
    ∃ name, d.argNames[i]? = some name ∧
      (∀ (sharedNames : List String) (around : Drafts), ∃ begun v,
        Drafting.openFunction names false sharedNames around =
            .ok ((), ⟨begun, around.current :: around.around⟩) ∧
          begun.params = names.length ∧ begun.variadic = false ∧
          Drafting.lookupIn name begun (around.current :: around.around) =
            .ok (.variable v, begun, around.current :: around.around) ∧
          v.place.register = i) ∧
      ∀ (code : FunctionCode) (args : List Value) (v : Value), code.params = names.length →
        args[i]? = some v → (Machine.startRegisters code args)[i]? = some v
  | none =>
    ∀ (c : Control) (position : Nat) (f : Closure) (args : List Value),
      f.code.params = 0 → f.code.variadic = true →
        (Machine.activationOf c position args.length f args).call.varargs = args

/-- Names for all arguments are enough to have all of them, unless they are too many. -/
theorem reachesArgument {d : RoutineDefinition} (hcount : d.argNames.length = d.argTypes.length)
    (hfew : (d.parameters?.getD []).length ≤ Drafting.maxVariables) {i : Nat}
    (hi : i < d.argTypes.length) : d.ReachesArgument i := by
  unfold ReachesArgument
  cases hparameters : d.parameters? with
  | none =>
    intro c position f args hparams hvariadic
    simp only [Machine.activationOf, hparams, hvariadic, if_true, List.drop_zero]
  | some names =>
    obtain ⟨rfl, -, hnodup, -⟩ := parameters?_eq_some_iff.mp hparameters
    rw [hparameters] at hfew
    have hlt : i < d.argNames.length := hcount ▸ hi
    have hname : d.argNames[i]? = some d.argNames[i] := List.getElem?_eq_getElem hlt
    refine ⟨d.argNames[i], hname, fun sharedNames around => ?_, fun code args v hparams hv => ?_⟩
    · obtain ⟨begun, hopen, hscope, hparams, hvariadic⟩ :=
        Drafting.openFunction_ok hfew false sharedNames around
      obtain ⟨v, hlookup, hregister⟩ := Drafting.lookupIn_of_scope hnodup hscope hname
        (around.current :: around.around)
      exact ⟨begun, v, hopen, hparams, hvariadic, hlookup, hregister⟩
    · exact Machine.getElem?_startRegisters (hparams ▸ hlt) hv

/-- The header of a routine, for any definition. The arguments have names in the body exactly if
these are given, are different, and each of them reads as one name; then the parameters are these
names in this order, and otherwise the arguments are taken as three dots. The name of the function
reads as one name. The source reads as the words of the header, all on the first line, and on from
there as the body; if it can be read at all, its first two statements declare the variable and
assign to it a value that starts with the function of these parameters. With as many names as types
every argument can be had in the body, unless more parameters are named than there may be
variables. -/
theorem chunk_header (d : RoutineDefinition) :
    (∀ names, d.parameters? = some names ↔ d.argNames = names ∧ names ≠ [] ∧ names.Nodup ∧
      ∀ n ∈ names, Token.readAll n.toUTF8 = .ok [⟨.name n, 1⟩]) ∧
    Token.readAll (Identifier.sanitize d.name).toUTF8 =
      .ok [⟨.name (Identifier.sanitize d.name), 1⟩] ∧
    Token.readAll d.chunk.toUTF8 =
      (Token.readFrom 1 (Text.byteChars d.bodyText.toUTF8)).map
        (Token.onLine 1 d.headerWords ++ ·) ∧
    (∀ b, Block.read d.chunk.toUTF8 = .ok b → ∃ line e values body rest,
      b = .declare [(Identifier.sanitize d.name, .plain)] [] ::
        .assign line [.name 1 (Identifier.sanitize d.name)] (e :: values) :: rest ∧
      e.firstOperand = .function (d.parameters?.getD []) d.parameters?.isNone body) ∧
    (d.argNames.length = d.argTypes.length →
      (d.parameters?.getD []).length ≤ Drafting.maxVariables →
        ∀ i < d.argTypes.length, d.ReachesArgument i) := by
  refine ⟨fun names => ?_, Token.readAll_eq_name_iff.mpr (Identifier.isValid_sanitize d.name),
    d.reads_chunk, fun b hb => read_chunk hb,
    fun hcount hfew i hi => reachesArgument hcount hfew hi⟩
  rw [parameters?_eq_some_iff]
  simp only [Token.readAll_eq_name_iff]

/-- A routine whose name is no identifier, with two arguments. -/
def ninthLife : RoutineDefinition :=
  { id := 1, name := "9 lives", source := "return who", argNames := ["who", "end_"],
    argTypes := [Scalar.text.id, Scalar.int4.id], resultType := Scalar.text.id, returnsSet := false,
    stamp := .ofTransaction 1 }

/-- Its source can be read, and both arguments can be had in the body. -/
theorem chunk_header_ninthLife :
    ninthLife.chunk =
        "local _9_lives _9_lives = function(who, end_) return who\nend return _9_lives" ∧
      (∃ line e values body rest,
        Block.read ninthLife.chunk.toUTF8 = .ok (.declare [("_9_lives", .plain)] [] ::
          .assign line [.name 1 "_9_lives"] (e :: values) :: rest) ∧
        e.firstOperand = .function ["who", "end_"] false body) ∧
      ninthLife.ReachesArgument 0 ∧ ninthLife.ReachesArgument 1 := by
  obtain ⟨-, -, -, hread, hreaches⟩ := chunk_header ninthLife
  have hname : Identifier.sanitize ninthLife.name = "_9_lives" := by decide
  have hparameters : ninthLife.parameters? = some ["who", "end_"] := by decide
  have hfew : (ninthLife.parameters?.getD []).length ≤ Drafting.maxVariables := by decide
  obtain ⟨b, hb⟩ : ∃ b, Block.read ninthLife.chunk.toUTF8 = .ok b := by
    cases h : Block.read ninthLife.chunk.toUTF8 with
    | error e =>
      have hok : (Block.read ninthLife.chunk.toUTF8).toBool = true := by decide +kernel
      rw [h] at hok
      exact nomatch hok
    | ok b => exact ⟨b, rfl⟩
  obtain ⟨line, e, values, body, rest, rfl, he⟩ := hread b hb
  rw [hname] at hb
  rw [hparameters] at he
  exact ⟨by decide, ⟨line, e, values, body, rest, hb, he⟩, hreaches rfl hfew 0 (by decide),
    hreaches rfl hfew 1 (by decide)⟩

/-- A routine of two types whose arguments have one name. -/
def lopsided : RoutineDefinition :=
  { ninthLife with name := "f", source := "return b", argNames := ["a"] }

/-- A routine with more names for arguments than there may be variables. -/
def crowded : RoutineDefinition :=
  { ninthLife with
    argNames := (List.range 201).map fun i => "a" ++ toString i
    argTypes := List.replicate 201 Scalar.int4.id }

/-- Names are taken as parameters without regard to their number. If there are fewer than types, a
second argument makes no difference to the body; if there are too many for variables, no function
with these parameters can be compiled. -/
theorem chunk_loses :
    (lopsided.argNames.length ≠ lopsided.argTypes.length ∧
      lopsided.parameters? = some ["a"] ∧
      lopsided.chunk = "local f f = function(a) return b\nend return f" ∧
      ∀ (c : Control) (position : Nat) (f : Closure) (x y : Value), f.code.params = 1 →
        f.code.variadic = false →
          (Machine.activationOf c position 2 f [x, y]).registers =
              Machine.startRegisters f.code [x] ∧
            (Machine.activationOf c position 2 f [x, y]).call.varargs = []) ∧
    crowded.argNames.length = crowded.argTypes.length ∧
      crowded.parameters? = some crowded.argNames ∧
      ∀ (sharedNames : List String) (around : Drafts),
        Drafting.openFunction crowded.argNames false sharedNames around =
          .error ⟨0, "too many local variables"⟩ := by
  refine ⟨⟨by decide, by decide, by decide, fun c position f x y hparams hvariadic => ⟨?_, ?_⟩⟩,
    by decide +kernel, ?_, fun sharedNames around => ?_⟩
  · simp only [Machine.activationOf, Machine.startRegisters, hparams]
    rfl
  · simp only [Machine.activationOf, hvariadic]
    rfl
  · refine parameters?_eq_some_iff.mpr ⟨rfl, by decide +kernel, ?_, by decide +kernel⟩
    refine List.nodup_range.map fun i j hij => ?_
    have hchars := congrArg String.toList hij
    simp only [String.toList_append] at hchars
    exact Nat.repr_inj.mp (String.toList_injective (List.append_cancel_left hchars))
  · exact Drafting.openFunction_tooMany (by decide +kernel) false sharedNames around

end RoutineDefinition

end StoredRoutine
