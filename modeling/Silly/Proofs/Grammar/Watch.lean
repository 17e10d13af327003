import Silly.Proofs.Grammar.Nodes
import Silly.Proofs.Grammar.Reading

/-!
# What can be watched of a reading

What a reading comes to and what it leaves in the log are two things that can be watched of it. Each is
a value for every point of the reading, and it is made from the value at the next point, where a
statement that is finished may add something of its own (`Watch`).

Whatever is watched, what is derived is read. The tokens of an expression take a reader from the point at
which it needs the expression to the point at which the expression is delivered (`Watch.read_expr`),
the tokens of a statement take it to the point at which the statement is finished (`Watch.read_stmt`),
and so on for each category of the grammar. What is open around the construct, and what comes after it,
does not matter, so each of these is proved by induction on the derivation, with the surroundings left
general. No token on the way is ever taken for the beginning or the end of something else.

The place of the construct among all tokens is left general as well. On the way through the tokens of a
statement, the statements inside of it add what they add, in order, and then the statement itself does.
-/

namespace Silly

/-- What there is to say of a statement that is finished: how many tokens were taken by then, and which
was its first one. -/
def Node.entry (all : List Token) (n : Node) : Nat × Option Opening :=
  (n.stop, (n.tokens all).head?.map Token.opening)

/-- **The entry of a statement** that begins with the token at the place `i`. -/
theorem entry_of_drop {all us : List Token} {t : Token} {i : Nat} {s : Stmt} (h : all.drop i = us)
    (ht : us.head? = some t) :
    Node.entry all ⟨s, i, i + s.width⟩ = (i + s.width, some t.opening) := by
  rw [Node.entry, Node.tokens, List.drop_take, h, Nat.add_sub_cancel_left, List.head?_take,
    if_neg (Nat.ne_of_gt s.width_pos), ht]
  rfl

/-- **What can be watched of a reading** with the table `names`: a value for each point, where `i` tokens
have been taken and `ts` are left. It is made from the value at the next point, whatever operators are noted
on the way. -/
structure Watch (names : Interner) (α : Type) where
  /-- The value in a partly read statement, after the statements before it. -/
  read (p : Fragment) (before : List Stmt) (i : Nat) (ts : List Token) : α
  /-- The value right after a token, of which the turn was made. -/
  turn (turn : Turn) (before : List Stmt) (i : Nat) (ts : List Token) : α
  /-- What a finished statement adds. -/
  finish (entry : Nat × Option Opening) (a : α) : α
  read_cons (p : Fragment) (before : List Stmt) (i : Nat) (t : Token) (ts : List Token) :
    read p before i (t :: ts) = turn (p.step names (t.named names)) before (i + 1) ts
  turn_more (names' : Interner) (phase : Phase) (bs : List OpenBlock) (before : List Stmt) (i : Nat)
    (ts : List Token) : turn (.more names' phase bs) before i ts = read ⟨phase, bs⟩ before i ts
  turn_unary (names' : Interner) (phase : Phase) (bs : List OpenBlock) (op : UnaryOp)
    (before : List Stmt) (i : Nat) (ts : List Token) :
    turn ((Turn.more names' phase bs).noting (.unaryExpression op)) before i ts =
      read ⟨phase, bs⟩ before i ts
  turn_binary (names' : Interner) (phase : Phase) (bs : List OpenBlock) (op : BinaryOp)
    (before : List Stmt) (i : Nat) (ts : List Token) :
    turn ((Turn.more names' phase bs).noting (.binaryExpression op)) before i ts =
      read ⟨phase, bs⟩ before i ts
  turn_complete (names' : Interner) (o : Opening) (s : Stmt) (before : List Stmt) (i : Nat)
    (ts : List Token) :
    turn (.finish names' o s []) before i ts = finish (i, some o) (read .start (s :: before) i ts)
  turn_push (names' : Interner) (o : Opening) (s : Stmt) (b : OpenBlock) (bs : List OpenBlock)
    (before : List Stmt) (i : Nat) (ts : List Token) :
    turn (.finish names' o s (b :: bs)) before i ts =
      finish (i, some o) (read ⟨.between, b.push s :: bs⟩ before i ts)
  turn_congr {turn₁ turn₂ : Turn} (hverdict : turn₁.verdict = turn₂.verdict)
    (hevents : turn₁.events = turn₂.events) (before : List Stmt) (i : Nat) (ts : List Token) :
    turn turn₁ before i ts = turn turn₂ before i ts

namespace Watch

variable {names : Interner} {α : Type} (W : Watch names α) {before : List Stmt} {bs : List OpenBlock}
  {o : Opening} {t : Token} {ts all : List Token} {i : Nat}

attribute [simp] turn_more turn_unary turn_binary

/-- The value after the statement `s`, which goes into the innermost open block. -/
def after (before : List Stmt) (s : Stmt) (i : Nat) (ts : List Token) : List OpenBlock → α
  | [] => W.read .start (s :: before) i ts
  | b :: bs => W.read ⟨.between, b.push s :: bs⟩ before i ts

/-- What statements add that are finished one after another, all before the value `a`. -/
def nodes (all : List Token) (ns : List Node) (a : α) : α :=
  ns.foldr (fun n => W.finish (n.entry all)) a

@[simp] theorem nodes_nil (a : α) : W.nodes all [] a = a := rfl

@[simp] theorem nodes_cons (n : Node) (ns : List Node) (a : α) :
    W.nodes all (n :: ns) a = W.finish (n.entry all) (W.nodes all ns a) := rfl

@[simp] theorem nodes_append (ns ns' : List Node) (a : α) :
    W.nodes all (ns ++ ns') a = W.nodes all ns (W.nodes all ns' a) :=
  List.foldr_append

/-- **A finished statement** adds its entry, and the reading goes on after it. -/
@[simp] theorem turn_finish {names' : Interner} {s : Stmt} :
    W.turn (.finish names' o s bs) before i ts = W.finish (i, some o) (W.after before s i ts bs) := by
  cases bs with
  | nil => exact W.turn_complete ..
  | cons b bs => exact W.turn_push ..

theorem read_between :
    W.read ⟨.between, bs⟩ before i (t :: ts) =
      W.turn (stepBetween names bs (t.named names)) before (i + 1) ts := W.read_cons ..

theorem read_within {need : Need} :
    W.read ⟨.within o need, bs⟩ before i (t :: ts) =
      W.turn (stepWithin names o bs (t.named names) need) before (i + 1) ts := W.read_cons ..

/-! ### Expressions -/

section Expressions

variable {hole : StmtHole} {e : Expr} {around : List ExprHole}

theorem turn_deliver (names' : Interner) :
    W.turn (deliver names' o hole bs e around) before i ts =
      W.turn (deliver names o hole bs e around) before i ts :=
  W.turn_congr (deliver_verdict names' names) matches_deliver.events before i ts

theorem read_identifier (hk : t.kind = .identifier) :
    W.read ⟨.within o (.expression hole around), bs⟩ before i (t :: ts) =
      W.turn (deliver names o hole bs (.var (names.nameOf t.text)) around) before (i + 1) ts := by
  simp [read_within, stepWithin, stepExpression, hk]

/-- A string literal delivers a text, whose name the table has. -/
theorem read_string (hk : t.kind = .string) :
    W.read ⟨.within o (.expression hole around), bs⟩ before i (t :: ts) =
      W.turn (deliver names o hole bs (.str (names.nameOf t.contents)) around) before (i + 1) ts := by
  simp only [read_within, stepWithin, stepExpression, Token.named_kind, hk, Token.named_contents]
  rw [turn_deliver]
  rfl

/-- An opening parenthesis is that of a group, for the time being. -/
theorem read_open (hk : t.kind = .delimiter .openParen) :
    W.read ⟨.within o (.expression hole around), bs⟩ before i (t :: ts) =
      W.read ⟨.within o (.expression hole (.group :: around)), bs⟩ before (i + 1) ts := by
  simp [read_within, stepWithin, stepExpression, hk]

mutual
/-- **The tokens of an expression deliver it.** No statement is finished on the way. -/
theorem read_expr {us : List Token} {e : Expr} {i : Nat} (around : List ExprHole) (ts : List Token) :
    DerivesExpr names.nameOf us e →
    W.read ⟨.within o (.expression hole around), bs⟩ before i (us ++ ts) =
      W.turn (deliver names o hole bs e around) before (i + e.width) ts
  -- A name, an integer, a string and a truth value are one token each.
  | .var hk => W.read_identifier hk
  | .int hk hn => by simp [read_within, stepWithin, stepExpression, hk, hn, Expr.width]
  | .str hk => W.read_string hk
  | .bool hk => by simp [read_within, stepWithin, stepExpression, hk, Expr.width]
  | .unary hl hu he hr => by
    -- The places of the parts add up to the width, here and below.
    have hwidth (m : Nat) : i + 1 + 1 + m + 1 = i + (m + 3) := by omega
    -- The parenthesis is read as that of a group until the operator comes.
    rw [List.cons_append, W.read_open hl]
    simp [read_within, stepWithin, stepExpression, hu, read_expr _ _ he, deliver, hr, Expr.width, hwidth]
  | .binary hl h₁ hb h₂ hr => by
    have hwidth (m m' : Nat) : i + 1 + m + 1 + m' + 1 = i + (m + m' + 3) := by omega
    rw [List.cons_append, W.read_open hl, List.append_assoc, read_expr _ _ h₁]
    -- The operator turns the parenthesis into an operation, and its second operand comes next.
    simp [deliver, read_within, stepWithin, hb, read_expr _ _ h₂, hr, Expr.width, hwidth]
  -- The bracket opens a list without items, and each item is added to it.
  | .list hl hes hr => by
    have hwidth (m : Nat) : i + 1 + m + 1 = i + (m + 2) := by omega
    simp [read_within, stepWithin, stepExpression, hl, read_items _ _ _ hes, hr, Expr.width, hwidth]

/-- The tokens of the items of a list put them into the list. -/
theorem read_items {us : List Token} {es : List Expr} {i : Nat} (around : List ExprHole)
    (done : List Expr) (ts : List Token) : DerivesItems names.nameOf us es →
    W.read ⟨.within o (.expression hole (.item done :: around)), bs⟩ before i (us ++ ts) =
      W.read ⟨.within o (.expression hole (.item (es.reverse ++ done) :: around)), bs⟩ before
        (i + itemsWidth es) ts
  | .nil => rfl
  | .cons he hes => by
    rw [List.append_assoc, read_expr _ _ he, deliver, turn_more, read_items _ _ _ hes]
    simp [itemsWidth, Nat.add_assoc]
end

end Expressions

/-! ### Statements -/

section Statements

theorem read_word {header : Header} (hk : t.kind = .keyword header.word) :
    W.read ⟨.within o (.word header), bs⟩ before i (t :: ts) =
      W.read ⟨.between, ⟨o, .after header, []⟩ :: bs⟩ before (i + 1) ts := by
  simp [read_within, stepWithin, hk]

theorem read_terminator {b : OpenBlock} {k : Keyword} (hk : t.kind = .keyword k)
    (hterm : k ∈ b.hole.terminators) :
    W.read ⟨.between, b :: bs⟩ before i (t :: ts) =
      W.turn (closeBlock names b bs k) before (i + 1) ts := by
  simp [read_between, stepBetween, hk, hterm]

theorem read_begin {k : StatementKeyword} (hk : t.kind = .statement k) :
    W.read ⟨.between, bs⟩ before i (t :: ts) =
      W.turn (beginStatement names bs (t.named names) k) before (i + 1) ts := by
  simp [read_between, stepBetween, hk]

/-- A condition or count, the keyword after it, and the block that they begin. -/
theorem read_header {us : List Token} {hole : StmtHole} {header : Header} {e : Expr}
    (he : DerivesExpr names.nameOf us e) (hfill : hole.fill e = .inr header)
    (hk : t.kind = .keyword header.word) :
    W.read ⟨.within o (.expression hole []), bs⟩ before i (us ++ t :: ts) =
      W.read ⟨.between, ⟨o, .after header, []⟩ :: bs⟩ before (i + e.width + 1) ts := by
  rw [W.read_expr _ _ he, deliver, hfill]
  exact (W.turn_more ..).trans (W.read_word hk)

/-- The expression that ends a statement. -/
theorem read_fill {us : List Token} {hole : StmtHole} {s : Stmt} {e : Expr}
    (he : DerivesExpr names.nameOf us e) (hfill : hole.fill e = .inl s) :
    W.read ⟨.within o (.expression hole []), bs⟩ before i (us ++ ts) =
      W.finish (i + e.width, some o) (W.after before s (i + e.width) ts bs) := by
  rw [W.read_expr _ _ he, deliver, hfill]
  exact W.turn_finish

/-- The word `gets` and the expression after it end the statement. -/
theorem read_gets {us : List Token} {hole : StmtHole} {s : Stmt} {e : Expr}
    (hk : t.kind = .keyword .gets) (he : DerivesExpr names.nameOf us e)
    (hfill : hole.fill e = .inl s) :
    W.read ⟨.within o (.gets hole), bs⟩ before i (t :: us ++ ts) =
      W.finish (i + 1 + e.width, some o) (W.after before s (i + 1 + e.width) ts bs) := by
  rw [List.cons_append, read_within]
  simp [stepWithin, hk, W.read_fill he hfill]

-- The recursion is over derivations. What is open around a construct changes on the way inward, so the
-- open blocks and the tokens that come after are arguments. What stands at the place of the construct
-- among all tokens is known, so it is known of each part as well.
mutual
/-- **The statements inside of a statement are finished in order, and then the statement itself.** -/
theorem read_stmt {us : List Token} {s : Stmt} {i : Nat} (bs : List OpenBlock)
    (ts : List Token) (h : all.drop i = us ++ ts) : DerivesStmt names.nameOf us s →
    W.read ⟨.between, bs⟩ before i (us ++ ts) =
      W.nodes all (s.innerNodes i) (W.finish (Node.entry all ⟨s, i, i + s.width⟩)
        (W.after before s (i + s.width) ts bs))
  | .assign hx hg he => by
    have hwidth (m : Nat) : i + 1 + 1 + m = i + (m + 2) := by omega
    rw [entry_of_drop h rfl, List.cons_append, read_between]
    simp only [stepBetween, Token.named_kind, hx, turn_more]
    rw [W.read_gets hg he rfl, hwidth]
    rfl
  | .declare hv hx hg he => by
    have hwidth (m : Nat) : i + 1 + 1 + 1 + m = i + (m + 3) := by omega
    rw [entry_of_drop h rfl, List.cons_append, W.read_begin hv, beginStatement,
      turn_more, List.cons_append, read_within]
    simp only [stepWithin, Token.named_kind, hx, if_true, turn_more]
    rw [W.read_gets hg he rfl, hwidth]
    rfl
  | .print hp he => by
    have hwidth (m : Nat) : i + 1 + m = i + (m + 1) := by omega
    rw [entry_of_drop h rfl, List.cons_append, W.read_begin hp, beginStatement, turn_more]
    rw [W.read_fill he rfl, hwidth]
    rfl
  | .ifElse hi hc ht hb hr => by
    have hplace (m : Nat) : i + 1 + m + 1 = i + (m + 2) := by omega
    have hstop (m m' m'' : Nat) : i + (m + 2) + m' + m'' = i + (m + m' + m'' + 2) := by omega
    rw [entry_of_drop h rfl]
    -- The first body comes after the condition, and the other arms after the first body.
    rw [List.cons_append, List.append_assoc, List.cons_append] at h ⊢
    have hbody := hc.drop_header h
    rw [List.append_assoc] at hbody ⊢
    have hrest := drop_after hbody hb.length_eq
    rw [W.read_begin hi, beginStatement, turn_more, W.read_header hc rfl ht,
      hplace, read_block _ _ _ hbody hb, read_arms _ _ hrest rfl hr]
    simp [Stmt.innerNodes, Arms.nodes, Stmt.width, Arms.width, Arms.ofBranches, OpenBlock.body, hstop]
  -- A loop has one body, which comes after the header, and one word to end it.
  | .whileDo hw hc hd hb he | .repeatTimes hw hc hd hb he => by
    have hplace (m : Nat) : i + 1 + m + 1 = i + (m + 2) := by omega
    have hstop (m m' : Nat) : i + (m + 2) + m' + 1 = i + (m + m' + 3) := by omega
    rw [entry_of_drop h rfl]
    rw [List.cons_append, List.append_assoc, List.cons_append] at h ⊢
    have hbody := hc.drop_header h
    rw [List.append_assoc] at hbody ⊢
    rw [W.read_begin hw, beginStatement, turn_more, W.read_header hc rfl hd,
      hplace, read_block _ _ _ hbody hb, List.singleton_append,
      W.read_terminator he (by simp [BlockHole.terminators])]
    simp [closeBlock, OpenBlock.body, Stmt.innerNodes, Stmt.width, hstop]
  -- The statement is complete with the name.
  | .call hc hx => by
    rw [entry_of_drop h rfl, List.cons_append, W.read_begin hc, beginStatement, turn_more,
      List.singleton_append, read_within]
    simp only [stepWithin, Token.named_kind, hx, if_true]
    exact W.turn_finish
  | .exit hk | .breakLoop hk => by
    rw [entry_of_drop h rfl, List.singleton_append, W.read_begin hk, beginStatement]
    exact W.turn_finish

/-- The statements in the arms after the first body of an `if`, and then the `if` itself. -/
theorem read_arms {us : List Token} {arms : Arms} {i : Nat} {b : OpenBlock}
    {branches : List (Expr × Block)} {c : Expr} (bs : List OpenBlock) (ts : List Token)
    (h : all.drop i = us ++ ts) :
    b.hole = .after (.branch branches c) → DerivesArms names.nameOf us arms →
    W.read ⟨.between, b :: bs⟩ before i (us ++ ts) =
      W.nodes all (arms.nodes i) (W.finish (i + arms.width, some b.opening)
        (W.after before (.ifElse (.ofBranches branches.reverse (.arm c b.body arms)))
          (i + arms.width) ts bs))
  -- The `if` is complete with its last word.
  | hb, .done he => by
    rw [List.singleton_append, W.read_terminator he (by simp [hb, BlockHole.terminators])]
    simp only [closeBlock, hb]
    refine W.turn_finish.trans ?_
    simp [Arms.ofBranches, Arms.nodes, Arms.width]
  -- The last body has no condition, and the word after it completes the `if`.
  | hb, .otherwise (l := l) hl hbody he => by
    have hstop (m : Nat) : i + 1 + m + 1 = i + (m + 2) := by omega
    rw [List.cons_append, List.append_assoc] at h ⊢
    have hcut : all.drop i = [l] ++ (_ ++ _) := h
    have hrest : all.drop (i + 1) = _ := drop_after hcut rfl
    rw [W.read_terminator hl (by simp [hb, BlockHole.terminators])]
    simp only [closeBlock, hb, turn_more]
    rw [read_block _ _ _ hrest hbody, List.singleton_append,
      W.read_terminator he (by simp [BlockHole.terminators])]
    simp [closeBlock, OpenBlock.body, Arms.ofBranches, Arms.nodes, Arms.width, hstop]
  | hb, .arm hl hc ht hbody hr => by
    have hplace (m : Nat) : i + 1 + m + 1 = i + (m + 2) := by omega
    have hstop (m m' m'' : Nat) : i + (m + 2) + m' + m'' = i + (m + m' + m'' + 2) := by omega
    rw [List.cons_append, List.append_assoc, List.cons_append] at h ⊢
    have hdrop := hc.drop_header h
    rw [List.append_assoc] at hdrop ⊢
    have hrest := drop_after hdrop hbody.length_eq
    -- `elseif` makes the branch one of those before, and its condition the open one.
    rw [W.read_terminator hl (by simp [hb, BlockHole.terminators])]
    simp only [closeBlock, hb, turn_more]
    rw [W.read_header hc rfl ht, hplace, read_block _ _ _ hdrop hbody,
      read_arms _ _ hrest rfl hr]
    simp [Arms.nodes, Arms.width, Arms.ofBranches, OpenBlock.body, hstop]

/-- The statements of a block, in order. -/
theorem read_block {us : List Token} {ss : List Stmt} {i : Nat} (b : OpenBlock)
    (bs : List OpenBlock) (ts : List Token) (h : all.drop i = us ++ ts) :
    DerivesBlock names.nameOf us ss →
    W.read ⟨.between, b :: bs⟩ before i (us ++ ts) =
      W.nodes all (blockNodes i ss)
        (W.read ⟨.between, { b with before := ss.reverse ++ b.before } :: bs⟩ before
          (i + blockWidth ss) ts)
  | .nil => rfl
  -- The first statement is finished in the block, and the others follow it there.
  | .cons hs hss => by
    rw [List.append_assoc] at h ⊢
    have hrest := drop_after h hs.length_eq
    rw [read_stmt _ _ h hs, after, read_block _ _ _ hrest hss]
    simp [blockNodes, blockWidth, OpenBlock.push, Nat.add_assoc]
end

end Statements

/-! ### Programs -/

/-- **A statement at the top level**, which may be a subroutine. -/
theorem read_top {us : List Token} {s : Stmt} (ts : List Token) (h : all.drop i = us ++ ts)
    (hs : DerivesTop names.nameOf us s) :
    W.read ⟨.between, []⟩ before i (us ++ ts) =
      W.nodes all (s.innerNodes i) (W.finish (Node.entry all ⟨s, i, i + s.width⟩)
        (W.read .start (s :: before) (i + s.width) ts)) := by
  cases hs with
  | stmt hs => exact W.read_stmt [] ts h hs
  -- The word, the name, and the statements of the body up to the word that ends it.
  | @sub k x e vs body hk hx hb he =>
    have hplace : i + 1 + 1 = i + 2 := rfl
    have hstop : i + 2 + blockWidth body + 1 = i + (blockWidth body + 3) := by omega
    rw [entry_of_drop h rfl]
    rw [List.cons_append, List.cons_append, List.append_assoc] at h ⊢
    have hcut : all.drop i = [k, x] ++ (vs ++ ([e] ++ ts)) := h
    have hbody : all.drop (i + 2) = vs ++ ([e] ++ ts) := drop_after hcut rfl
    rw [W.read_begin hk]
    simp only [beginStatement, List.isEmpty_nil, if_true, turn_more]
    rw [read_within]
    simp only [stepWithin, Token.named_kind, hx, if_true, turn_more]
    rw [hplace, W.read_block _ _ _ hbody hb, List.singleton_append,
      W.read_terminator he (by simp [BlockHole.terminators])]
    simp [closeBlock, OpenBlock.body, Stmt.innerNodes, Stmt.width, after,
      hstop]

/-- **The statements of a program are finished in the order of its nodes.** -/
theorem read_program {us : List Token} {p : Program} (hp : DerivesProgram names.nameOf us p)
    (h : all.drop i = us) :
    W.read .start before i us =
      W.nodes all (blockNodes i p) (W.read .start (p.reverse ++ before) (i + blockWidth p) []) := by
  -- By induction on the derivation. After each statement the next one begins at the top level.
  induction hp generalizing before i with
  | nil => rfl
  | cons hs _ ih =>
    have hrest := drop_after h hs.length_eq
    rw [Fragment.start, W.read_top _ h hs, ih hrest]
    simp [blockNodes, blockWidth, Fragment.start, Nat.add_assoc]

end Watch

end Silly
