import Silly.Proofs.Grammar.Reading

/-!
# What is due

Reading needs to know little of what it has read. Of each open construct only the parts that are
still to come matter: they are *due*, the nearest first, and what is due is a list of goals. One
token meets the first goal, replaces it by others, or is an error (`Goal.advance`). Names and trees
play no part in this: a token is asked for its kind and its text, and for its place only if it is an
error.

The goals of a partly read statement are the parts that it still has to come (`Fragment.goals`), and
a step of the reader is an advance (`Fragment.goals_judge`). So a row of tokens is read into a
program if it meets every goal in turn and leaves none, and the error of one that is not is the
error that the goals run into (`readAll_eq_error_iff`).
-/

namespace Silly

/-- The constructs that have a block, by what may end the block. -/
inductive BlockKind
  /-- The body of a condition of an `if`. -/
  | branch
  /-- The `else` body. -/
  | otherwise
  | whileDo
  | repeatTimes
  | sub

namespace BlockKind

/-- The keyword that ends the whole construct. -/
def last : BlockKind → Keyword
  | branch | otherwise => .endif
  | whileDo => .endwhile
  | repeatTimes => .endrepeat
  | sub => .endsub

/-- The keywords that end the block. -/
def ends : BlockKind → List Keyword
  | branch => [.elseif, .else, .endif]
  | k => [k.last]

end BlockKind

/-- **Something that is due.** -/
inductive Goal
  | name
  | keyword (k : Keyword)
  | expression
  /-- An operation after its parenthesis. -/
  | operation
  /-- More items of a list, and the bracket that closes it. -/
  | items
  | operator
  | closeParen
  /-- More statements of a block, and a keyword that ends it. -/
  | block (kind : BlockKind)

namespace Goal

/-- What an error at the end of the source says of the goal. -/
def expected : Goal → Expected
  | name => .identifier
  | keyword k => .keywords [k]
  | expression | operation => .expression
  | items => .delimiter .closeBracket
  | operator => .binaryOperator
  | closeParen => .delimiter .closeParen
  | block kind => .keywords kind.ends

/-! ### Meeting goals -/

/-- The token is not what is due. -/
def unexpected (t : Token) (x : Expected) : Except ParseError (List Goal) :=
  .error (.unexpectedToken t.text x t.span)

/-- A token where an expression is due, and then `gs`. -/
def advanceExpression (gs : List Goal) (t : Token) : Except ParseError (List Goal) :=
  match t.kind with
  | .delimiter .openParen => .ok (operation :: gs)
  | .delimiter .openBracket => .ok (items :: gs)
  | .identifier | .boolean _ | .string => .ok gs
  | .integer =>
    if (Numeral.read? t.text).isSome then .ok gs else .error (.integerOutOfRange t.text t.span)
  | _ => unexpected t .expression

/-- The first token of a statement, where `gs` is due after the statement. -/
def advanceStatement (gs : List Goal) (t : Token) : Except ParseError (List Goal) :=
  match t.kind with
  | .identifier => .ok (keyword .gets :: expression :: gs)
  | .statement k =>
    match k with
    | .var => .ok (name :: keyword .gets :: expression :: gs)
    | .print => .ok (expression :: gs)
    | .if => .ok (expression :: keyword .then :: block .branch :: gs)
    | .while => .ok (expression :: keyword .do :: block .whileDo :: gs)
    | .repeat => .ok (expression :: keyword .times :: block .repeatTimes :: gs)
    | .sub =>
      if gs.isEmpty then .ok (name :: block .sub :: gs) else .error (.nestedSubroutine t.span)
    | .call => .ok (name :: gs)
    | .exit | .break => .ok gs
  | _ => .error (.unknownStatement t.text t.span)

/-- What a keyword that ends a block leaves due before `gs`. -/
def afterBlock (gs : List Goal) : Keyword → List Goal
  | .elseif => expression :: keyword .then :: block .branch :: gs
  | .else => block .otherwise :: gs
  | _ => gs

/-- **What one token leaves due.** Where nothing is due a statement may begin. -/
def advance (t : Token) : List Goal → Except ParseError (List Goal)
  | [] => advanceStatement [] t
  | name :: gs => if t.kind = .identifier then .ok gs else unexpected t .identifier
  | keyword k :: gs => if t.kind = .keyword k then .ok gs else unexpected t (.keywords [k])
  | expression :: gs => advanceExpression gs t
  | operation :: gs =>
    match t.kind with
    | .unary _ => .ok (expression :: closeParen :: gs)
    | _ => advanceExpression (operator :: expression :: closeParen :: gs) t
  | items :: gs =>
    if t.kind = .delimiter .closeBracket then .ok gs else advanceExpression (items :: gs) t
  | operator :: gs =>
    match t.kind with
    | .binary _ => .ok gs
    | _ => unexpected t .binaryOperator
  | closeParen :: gs =>
    if t.kind = .delimiter .closeParen then .ok gs else unexpected t (.delimiter .closeParen)
  | block kind :: gs =>
    match t.kind with
    | .keyword k =>
      if kind.ends.contains k then .ok (afterBlock gs k)
      else .error (.unknownStatement t.text t.span)
    | _ => advanceStatement (block kind :: gs) t

/-- **What a row of tokens leaves due.** -/
def advanceAll (gs : List Goal) : List Token → Except ParseError (List Goal)
  | [] => .ok gs
  | t :: ts => (advance t gs).bind fun gs => advanceAll gs ts

/-- The error that a reading comes to, from what it leaves due. -/
def failure : Except ParseError (List Goal) → Option ParseError
  | .error e => some e
  | .ok gs => gs.head?.map fun g => .unexpectedEnd g.expected

end Goal

/-! ### The goals of a partly read statement -/

/-- The kind of the block. -/
def BlockHole.kind : BlockHole → BlockKind
  | after (.branch ..) => .branch
  | after (.whileDo _) => .whileDo
  | after (.repeatTimes _) => .repeatTimes
  | otherwise _ => .otherwise
  | sub _ => .sub

/-- What is due after a header's expression. -/
def Header.goals (h : Header) : List Goal := [.keyword h.word, .block (BlockHole.after h).kind]

/-- What is due after the statement's expression. -/
def StmtHole.goals : StmtHole → List Goal
  | assign _ | declare _ | print => []
  | branch _ => [.keyword .then, .block .branch]
  | whileDo => [.keyword .do, .block .whileDo]
  | repeatTimes => [.keyword .times, .block .repeatTimes]

/-- What is due after the expression in the hole. -/
def ExprHole.goals : ExprHole → List Goal
  | group => [.operator, .expression, .closeParen]
  | operand _ | right .. => [.closeParen]
  | item _ => [.items]

/-- What is due where the innermost of the open expressions needs an expression. -/
def expressionGoals : List ExprHole → List Goal
  | .group :: around => .operation :: around.flatMap (·.goals)
  | .item _ :: around => .items :: around.flatMap (·.goals)
  | around => .expression :: around.flatMap (·.goals)

/-- What is due in a statement. -/
def Need.goals : Need → List Goal
  | name .declare => [.name, .keyword .gets, .expression]
  | name .sub => [.name, .block .sub]
  | name .call => [.name]
  | gets hole => .keyword .gets :: .expression :: hole.goals
  | expression hole around => expressionGoals around ++ hole.goals
  | operator hole around _ => ExprHole.group.goals ++ around.flatMap (·.goals) ++ hole.goals
  | closing hole around _ => .closeParen :: around.flatMap (·.goals) ++ hole.goals
  | word header => header.goals

/-- What is due after the statement. -/
def blockGoals (bs : List OpenBlock) : List Goal := bs.map fun b => .block b.hole.kind

/-- **What is due of a partly read statement.** -/
def Fragment.goals : Fragment → List Goal
  | ⟨.between, bs⟩ => blockGoals bs
  | ⟨.within _ need, bs⟩ => need.goals ++ blockGoals bs

/-- What a verdict leaves due. -/
def Verdict.goals : Verdict → Except ParseError (List Goal)
  | more p => .ok p.goals
  | complete _ => .ok []
  | reject e | decline e => .error e

/-! ### A step is an advance -/

section Steps

variable {names : Interner} {o : Opening} {hole : StmtHole} {bs : List OpenBlock}
  {around : List ExprHole} {t : Token}

/-- The keywords that end a block are those of its kind. -/
theorem BlockHole.ends_kind (h : BlockHole) : h.kind.ends = h.terminators := by
  cases h with
  | after header => cases header <;> rfl
  | otherwise => rfl
  | sub => rfl

@[simp] theorem goals_more {phase : Phase} :
    (Turn.more names phase bs).verdict.goals = .ok (Fragment.goals ⟨phase, bs⟩) := rfl

@[simp] theorem goals_unknown :
    (Turn.unknown names t).verdict.goals = .error (.unknownStatement t.text t.span) := rfl

/-- A finished statement leaves what is due after it. -/
@[simp] theorem goals_finish {s : Stmt} :
    (Turn.finish names o s bs).verdict.goals = .ok (blockGoals bs) := by
  cases bs <;> rfl

/-- **A delivered expression** leaves what is due after it. -/
theorem goals_deliver {e : Expr} :
    (deliver names o hole bs e around).verdict.goals =
      .ok (around.flatMap (·.goals) ++ hole.goals ++ blockGoals bs) := by
  -- The innermost hole takes the expression. With none left it is that of the statement.
  cases around with
  | nil => cases hole <;> simp [deliver, StmtHole.fill, StmtHole.goals, Fragment.goals,
      Need.goals, Header.goals, Header.word, BlockHole.kind]
  | cons h around => cases h <;> rfl

/-- An expression where no more than that is due. -/
theorem goals_stepExpression_plain
    (hunary : ∀ op rest, t.kind = .unary op → around ≠ .group :: rest)
    (hclose : ∀ before rest, t.kind = .delimiter .closeBracket → around ≠ .item before :: rest) :
    (stepExpression names o hole bs around t).verdict.goals =
      Goal.advanceExpression (around.flatMap (·.goals) ++ hole.goals ++ blockGoals bs) t := by
  -- By the kind of the token, of which both sides make the same.
  unfold stepExpression
  split
  · next hk =>
    rw [Goal.advanceExpression, hk]
    rfl
  · next hk =>
    rw [Goal.advanceExpression, hk]
    rfl
  · next hk =>
    rw [Goal.advanceExpression, hk]
    exact goals_deliver
  · next hk =>
    rw [Goal.advanceExpression, hk]
    exact goals_deliver
  · next hk =>
    simp only [Goal.advanceExpression, hk]
    cases Numeral.read? t.text with
    | none => rfl
    | some n => exact goals_deliver
  · next hk =>
    rw [Goal.advanceExpression, hk]
    exact goals_deliver
  -- These two tokens are met by something else that is due, which is excluded here.
  · next hk => exact absurd rfl (hunary _ _ hk)
  · next hk => exact absurd rfl (hclose _ _ hk)
  · next hparen hbracket hidentifier hboolean hinteger hstring _ _ =>
    unfold Goal.advanceExpression
    split <;> first | rfl | simp_all

/-- **A token where an expression is needed.** -/
theorem goals_stepExpression :
    (stepExpression names o hole bs around t).verdict.goals =
      Goal.advance t (expressionGoals around ++ hole.goals ++ blockGoals bs) := by
  cases around with
  | nil => exact goals_stepExpression_plain (by simp) (by simp)
  | cons h around =>
    cases h with
    | operand | right => exact goals_stepExpression_plain (by simp) (by simp)
    -- Right after a parenthesis an operator may stand, and that is the goal of an operation.
    | group =>
      simp only [expressionGoals, List.cons_append, Goal.advance]
      split
      · next op hk =>
        simp only [stepExpression, hk]
        rfl
      · next hk => exact goals_stepExpression_plain (fun op rest h => absurd h (hk op)) (by simp)
    -- In a list the bracket may stand, which is the goal of the items.
    | item before =>
      simp only [expressionGoals, List.cons_append, Goal.advance]
      split
      · next hk =>
        simp only [stepExpression, hk]
        exact goals_deliver
      · next hk => exact goals_stepExpression_plain (by simp) (fun _ _ h => absurd h hk)

/-- **A token inside of a statement.** -/
theorem goals_stepWithin {need : Need} :
    (stepWithin names o bs t need).verdict.goals =
      Goal.advance t (need.goals ++ blockGoals bs) := by
  -- By what the statement needs, which is the first of its goals.
  cases need with
  | expression hole around => exact goals_stepExpression
  | name use =>
    by_cases hk : t.kind = .identifier
    · cases use <;> simp [stepWithin, hk, Need.goals, Goal.advance, Fragment.goals,
        StmtHole.goals, blockGoals, BlockHole.kind]
    · cases use <;> simp [stepWithin, hk, Need.goals, Goal.advance] <;> rfl
  | gets hole =>
    simp only [stepWithin, Need.goals, List.cons_append, Goal.advance]
    split <;> rfl
  | operator hole around left =>
    simp only [stepWithin, Need.goals, ExprHole.goals, List.cons_append, Goal.advance]
    cases t.kind <;> rfl
  | closing hole around e =>
    simp only [stepWithin, Need.goals, List.cons_append, Goal.advance]
    split
    · exact goals_deliver
    · rfl
  | word header =>
    simp only [stepWithin, Need.goals, Header.goals, List.cons_append, Goal.advance]
    split <;> rfl

/-- **The end of a block.** -/
theorem goals_closeBlock {b : OpenBlock} {k : Keyword} (hk : k ∈ b.hole.terminators) :
    (closeBlock names b bs k).verdict.goals = .ok (Goal.afterBlock (blockGoals bs) k) := by
  -- By the construct that has the block. Only the branch of an `if` can go on after its block.
  obtain ⟨opening, hole, before⟩ := b
  cases hole with
  | after header =>
    cases header with
    | branch =>
      simp only [BlockHole.terminators, List.mem_cons, List.not_mem_nil, or_false] at hk
      rcases hk with rfl | rfl | rfl
      · rfl
      · rfl
      · exact goals_finish
    | whileDo | repeatTimes =>
      obtain rfl := List.mem_singleton.mp hk
      exact goals_finish
  | otherwise | sub =>
    obtain rfl := List.mem_singleton.mp hk
    exact goals_finish

/-- The first word of a statement. -/
theorem goals_beginStatement {k : StatementKeyword} (hk : t.kind = .statement k) :
    (beginStatement names bs t k).verdict.goals =
      Goal.advanceStatement (blockGoals bs) t := by
  simp only [Goal.advanceStatement, hk]
  cases k with
  -- Where nothing is due no block is open, and there a subroutine may begin.
  | sub =>
    cases bs <;> rfl
  | exit | «break» => exact goals_finish
  | _ => rfl

/-- **A token between statements.** -/
theorem goals_stepBetween :
    (stepBetween names bs t).verdict.goals = Goal.advance t (blockGoals bs) := by
  -- A keyword ends the innermost block, or it is no beginning of a statement.
  cases hk : t.kind with
  | statement k =>
    have hbegin : (beginStatement names bs t k).verdict.goals =
        Goal.advanceStatement (blockGoals bs) t := goals_beginStatement hk
    cases bs <;> simpa [stepBetween, Goal.advance, blockGoals, hk] using hbegin
  | keyword k =>
    cases bs with
    | nil => simp [stepBetween, Goal.advance, Goal.advanceStatement, blockGoals, hk, goals_unknown]
    | cons b bs =>
      simp only [stepBetween, hk, blockGoals, List.map_cons, Goal.advance, BlockHole.ends_kind]
      split
      · next hterm => exact goals_closeBlock (List.contains_iff_mem.mp hterm)
      · rfl
  | _ => cases bs <;> simp [stepBetween, Goal.advance, Goal.advanceStatement, blockGoals, hk,
      goals_unknown, Fragment.goals, Need.goals, StmtHole.goals]

/-- **A step of the reader is an advance**, whatever the names. -/
theorem Fragment.goals_step (p : Fragment) (names : Interner) (t : Token) :
    (p.step names t).verdict.goals = Goal.advance t p.goals := by
  obtain ⟨phase, bs⟩ := p
  cases phase with
  | between => exact goals_stepBetween
  | within => exact goals_stepWithin

theorem Fragment.goals_judge (names : Interner) (p : Fragment) (t : Token) :
    (p.judge names t).goals = Goal.advance t p.goals :=
  p.goals_step names (t.named names)

end Steps

/-! ### A reading is a row of advances -/

namespace Goal

variable {gs gs' : List Goal} {ts ts' : List Token} {t t' : Token} {e : ParseError}

@[simp] theorem advanceAll_nil : advanceAll gs [] = .ok gs := rfl

theorem advanceAll_cons :
    advanceAll gs (t :: ts) = (advance t gs).bind fun gs => advanceAll gs ts := rfl

/-- **One row of tokens after another** begins with what the first one leaves due. -/
theorem advanceAll_append :
    advanceAll gs (ts ++ ts') = (advanceAll gs ts).bind fun gs => advanceAll gs ts' := by
  induction ts generalizing gs with
  | nil => rfl
  | cons t ts ih =>
    rw [List.cons_append, advanceAll_cons, advanceAll_cons]
    cases advance t gs with
    | error e => rfl
    | ok gs => exact ih

/-- **The token that an error is about**: the goals are met up to it, and it does not meet the next
one. -/
theorem advanceAll_eq_error_iff :
    advanceAll gs ts = .error e ↔
      ∃ before t after gs', ts = before ++ t :: after ∧ advanceAll gs before = .ok gs' ∧
        advance t gs' = .error e := by
  constructor
  -- An error in one direction: it comes up at some token, and before it each goal was met.
  · intro h
    induction ts generalizing gs with
    | nil => cases h
    | cons t ts ih =>
      cases ht : advance t gs with
      | error e' =>
        rw [advanceAll_cons, ht] at h
        exact ⟨[], t, ts, gs, rfl, rfl, ht.trans h⟩
      | ok gs₁ =>
        rw [advanceAll_cons, ht] at h
        obtain ⟨before, u, after, gs', rfl, hbefore, hu⟩ := ih h
        refine ⟨t :: before, u, after, gs', rfl, ?_, hu⟩
        rw [advanceAll_cons, ht]
        exact hbefore
  -- In the other direction the error is that of the row, as it ends the row.
  · rintro ⟨before, t, after, gs', rfl, hbefore, ht⟩
    rw [advanceAll_append, hbefore]
    simp only [Except.bind, advanceAll_cons, ht]

/-- A reading does not fail if it leaves nothing due. -/
theorem failure_eq_none_iff {r : Except ParseError (List Goal)} : failure r = none ↔ r = .ok [] := by
  cases r with
  | error e => simp [failure]
  | ok gs => simp [failure]

end Goal

/-- The source may end where nothing is due. -/
theorem Fragment.atEnd_eq_failure (p : Fragment) : p.atEnd = Goal.failure (.ok p.goals) := by
  obtain ⟨phase, bs⟩ := p
  cases phase with
  -- Between statements a block may be open, which needs its keyword.
  | between =>
    cases bs with
    | nil => rfl
    | cons b bs => simp [atEnd, Goal.failure, goals, blockGoals, Goal.expected, BlockHole.ends_kind]
  -- Inside of a statement the first goal tells what is missed.
  | within o need =>
    cases need with
    | name use => cases use <;> rfl
    | expression hole around =>
      cases around with
      | nil => rfl
      | cons h around => cases h <;> rfl
    | _ => rfl

/-- **What a reading fails with is what the goals run into.** -/
theorem readAll_eq_error_iff {names : Interner} {p : Fragment} {before : List Stmt}
    {ts : List Token} {e : ParseError} :
    readAll names p before ts = .error e ↔
      Goal.failure (Goal.advanceAll p.goals ts) = some e := by
  -- By induction on the tokens. A verdict leaves due what the goals are advanced to.
  induction ts generalizing p before with
  | nil =>
    rw [readAll, Goal.advanceAll_nil, ← p.atEnd_eq_failure]
    cases p.atEnd <;> simp
  | cons t ts ih =>
    rw [readAll, Goal.advanceAll_cons, ← p.goals_judge names]
    cases p.judge names t with
    | more q => exact ih
    | complete s => exact ih
    | reject e' | decline e' => simp [Verdict.goals, Except.bind, Goal.failure]

/-- **A reading comes to a program if it leaves nothing due.** -/
theorem exists_readAll_eq_ok_iff {names : Interner} {p : Fragment} {before : List Stmt}
    {ts : List Token} :
    (∃ prog, readAll names p before ts = .ok prog) ↔ Goal.advanceAll p.goals ts = .ok [] := by
  rw [← Goal.failure_eq_none_iff]
  -- A program is no error, and what is not an error leaves nothing due.
  constructor
  · rintro ⟨prog, h⟩
    refine Option.eq_none_iff_forall_ne_some.mpr fun e he => ?_
    rw [readAll_eq_error_iff.mpr he] at h
    cases h
  · intro h
    cases hread : readAll names p before ts with
    | ok prog => exact ⟨prog, rfl⟩
    | error e =>
      rw [readAll_eq_error_iff.mp hread] at h
      cases h

end Silly
