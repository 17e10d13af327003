import Silly.Proofs.Descent.Expression

/-!
# The descent reads statements

Where the descent has a call of `block` that has not returned, the parser that runs has an open block.
So as long as a function follows the parser that runs, the count of open blocks is the number of open
blocks that the parser that runs has, and `sub` is told from its place by both alike
(`Descend.Follows.subWord`). A call of `block` puts the count back when it returns and when it fails,
so the count is the same afterwards in either case (`Descend.Follows.block`).

A statement begins with a token that has been looked at. Inside a block it is none that ends the
block. A token that begins no statement is the one thing that both parsers leave where it is. All
other errors are about a token that has been consumed, or about the end of the source.

As with expressions, the functions are proved right together, by induction on a bound for how many
lexemes are left (`Descend.Follows.statements_blocks`).
-/

namespace Silly

open Descend

variable {O : Outcome} {k n : Nat} {p : Fragment} {ls : List Lexeme} {r : Reader} {t : Token}
  {names : Interner} {o : Opening} {hole : StmtHole} {blocks : List OpenBlock} {s : Stmt}

/-- Between two statements, with some blocks open. -/
abbrev Fragment.between (blocks : List OpenBlock) : Fragment := ⟨.between, blocks⟩

/-! ### Between statements -/

/-- The first word of a statement is taken, also a `sub` that may not stand there. -/
theorem beginStatement_ne_decline {word : StatementKeyword} {err : ParseError} :
    (beginStatement names blocks t word).verdict ≠ .decline err := by
  cases word with
  | sub =>
    simp only [beginStatement]
    split <;> intro h <;> cases h
  | exit | «break» => exact Turn.finish_ne_decline
  | _ =>
    intro h
    cases h

/-- The keyword that ends a block is taken, whatever was open. -/
theorem closeBlock_ne_decline {b : OpenBlock} {word : Keyword} {err : ParseError} :
    (closeBlock names b blocks word).verdict ≠ .decline err := by
  unfold closeBlock
  -- By what has the block. Only a branch of an `if` depends on the keyword.
  split
  · dsimp only
    split
    · intro h
      cases h
    · intro h
      cases h
    · exact Turn.finish_ne_decline
  all_goals exact Turn.finish_ne_decline

/-- The last keyword of an `if` completes it. -/
theorem closeBlock_endif {before : List (Expr × Block)} {cond : Expr} {body : List Stmt}
    {word : Keyword} (helseif : word ≠ .elseif) (helse : word ≠ .else) :
    closeBlock names ⟨o, .after (.branch before cond), body.reverse⟩ blocks word =
      Turn.finish names o (.ifElse (.ofBranches ((cond, body) :: before).reverse .done))
        blocks := by
  simp only [closeBlock, OpenBlock.body, List.reverse_reverse]

namespace Descend

/-- A keyword that ends a block is one of those that end it. -/
theorem terminator?_eq_some {ks : List Keyword} {word : Keyword}
    (h : terminator? ks t = some word) : t.kind = .keyword word ∧ ks.contains word = true := by
  unfold terminator? at h
  split at h
  · next word' hkind =>
    split at h
    · next hmem =>
      obtain rfl := Option.some.inj h
      exact ⟨hkind, hmem⟩
    · cases h
  · cases h

/-- A token that begins no statement is unknown unless it ends the innermost block. -/
theorem stepBetween_unknown (hstatement : ∀ word, t.kind ≠ .statement word)
    (hidentifier : t.kind ≠ .identifier)
    (hends : ∀ b ∈ blocks.head?, terminator? b.hole.terminators t = none) :
    stepBetween names blocks t = Turn.unknown names t := by
  unfold stepBetween
  split
  case h_1 word hkind => exact absurd hkind (hstatement word)
  case h_2 hkind => exact absurd hkind hidentifier
  -- A keyword ends the innermost block or is unknown, and outside of all blocks it is unknown.
  case h_3 word hkind =>
    cases blocks with
    | nil => rfl
    | cons b blocks =>
      have hend := hends b rfl
      unfold terminator? at hend
      simp only [hkind] at hend
      split at hend
      · cases hend
      · next hmem => exact if_neg hmem
  case h_4 => rfl

/-- **A statement has been read**, but the log does not say so yet. -/
abbrev Finished (O : Outcome) (n : Nat) (o : Opening) (blocks : List OpenBlock) (s : Stmt) :
    Assertion :=
  Turned O n fun names => Turn.finish names o s blocks

/-- A statement has been read, and the log says so. It is what was read for, or it is one more in
the innermost of the open blocks. -/
def Ended (O : Outcome) (n : Nat) (blocks : List OpenBlock) (s : Stmt) : Assertion := fun r ls =>
  match blocks with
  | [] => O = (.ok (some s), ⟨ls, r⟩)
  | b :: blocks => Reads O n (.between (b.push s :: blocks)) r ls

/-- The note about a statement is what was missing. -/
theorem Finished.note (h : Finished O n o blocks s r ls) :
    Ended O n blocks s (r.note (.parsedStatement o.text o.start)) ls := by
  -- Outside of all blocks the reading ends here. Inside of one it goes on.
  cases blocks with
  | nil => exact h.2.symm
  | cons b blocks => exact h

/-- The innermost of the open blocks has been read, with the keyword that ends it. -/
abbrev Closed (O : Outcome) (n : Nat) (o : Opening) (hole : BlockHole) (blocks : List OpenBlock)
    (body : Block × Keyword) : Assertion :=
  Turned O n fun names => closeBlock names ⟨o, hole, body.1.reverse⟩ blocks body.2

namespace Follows

/-- The token that was seen is of the kind that is needed. -/
theorem expect_seen {p : Fragment} {kind : TokenKind} {x : Expected} (hkind : t.kind = kind)
    (hd : ∀ names e, (p.step names t).verdict ≠ .decline e) :
    Follows O k (Seen O n p t) (Descend.expect kind x) fun t' r ls =>
      t' = t ∧ Turned O (n - 1) (fun names => p.step names t) r ls := by
  -- The token is there, so the end of the source does not come up.
  have hnext : Follows O k (Seen O n p t) (Descend.nextOrEnd x) fun t' r ls =>
      t' = t ∧ Turned O (n - 1) (fun names => p.step names t) r ls := by
    refine (advance_seen hd).bind fun t? => assume (fun r ls h => h.1) ?_
    rintro rfl
    exact pure fun r ls h => ⟨rfl, h.2⟩
  refine hnext.bind fun t' => assume (fun r ls h => h.1) ?_
  rintro rfl
  rw [if_pos hkind]
  exact pure fun r ls h => h

/-- The first word of a statement is taken by both. -/
theorem advance_begin {word : StatementKeyword} (hkind : t.kind = .statement word) :
    Follows O k (Seen O (n + 1) (.between blocks) t) Descend.advance fun t? r ls =>
      t? = some t ∧ Turned O n (fun names => beginStatement names blocks t word) r ls := by
  have hstep (names) :
      Fragment.step (.between blocks) names t = beginStatement names blocks t word := by
    simp only [Fragment.step, stepBetween, hkind]
  refine mono_right (fun t? r ls h => ?_) (advance_seen fun names e => ?_)
  · simp only [hstep] at h
    exact h
  · rw [hstep]
    exact beginStatement_ne_decline

/-- A name is taken by both, and it is the name of its token. -/
theorem identifier {use : NameUse} :
    Follows O k (Reads O n (.within o blocks (.name use))) Descend.identifier fun x r ls =>
      ∃ t, t.kind = .identifier ∧ t.name = x ∧
        Turned O n (fun names => stepWithin names o blocks t (.name use)) r ls := by
  rw [Descend.identifier]
  refine (expect rfl ?_).bind fun t => pure fun r ls h => ⟨t, h.1, rfl, h.2⟩
  intro names t hkind
  exact if_neg hkind

/-- The keyword after the header opens the block. -/
theorem word (header : Header) :
    Follows O k (Reads O n (.within o blocks (.word header))) (keyword header.word) fun _ =>
      Reads O n (.between (⟨o, .after header, []⟩ :: blocks)) := by
  refine mono_right ?_ (expect rfl ?_)
  · rintro t r ls ⟨hkind, h⟩
    simp only [stepWithin, if_pos hkind] at h
    exact h.reads
  · intro names t hkind
    exact if_neg hkind

/-- The expression of a statement, around which no other expression is open. -/
theorem ownExpression (hole : StmtHole) :
    Follows O k (Reads O (n + 1) (.within o blocks (.expression hole []))) Descend.expression
      (Delivered O n o hole blocks []) :=
  expression.mono_left fun r ls h => ⟨h, by simp only [Plain]⟩

/-- A value is introduced by `gets`. -/
theorem value (hole : StmtHole) :
    Follows O k (Reads O n (.within o blocks (.gets hole))) Descend.value
      (Delivered O n o hole blocks []) := by
  rw [Descend.value]
  refine bind (B := fun _ => Reads O n (.within o blocks (.expression hole []))) ?_ fun _ => ?_
  -- The word is taken, and an expression is needed then.
  · refine mono_right ?_ (expect rfl ?_)
    · rintro t r ls ⟨hkind, h⟩
      simp only [stepWithin, if_pos hkind] at h
      exact h.reads
    · intro names t hkind
      exact if_neg hkind
  · exact (ownExpression hole).mono_left fun r ls h => h.mono (Nat.le_succ n)

/-- The expression in the header of a block. -/
theorem headExpression (hole : StmtHole) (header : Expr → Header)
    (hfill : ∀ e, hole.fill e = .inr (header e)) :
    Follows O k (Reads O (n + 1) (.within o blocks (.expression hole []))) Descend.expression
      fun e => Reads O n (.within o blocks (.word (header e))) := by
  refine (ownExpression hole).mono_right fun e r ls h => ?_
  simp only [Delivered, deliver, hfill] at h
  exact h.reads

/-! ### Statements without a block -/

/-- **An assignment** begins with its name, which has been looked at. -/
theorem assignment (hkind : t.kind = .identifier) :
    Follows O k (Seen O (n + 1) (.between blocks) t) Descend.assignment
      (Finished O n t.opening blocks) := by
  have hstep (names) : Fragment.step (.between blocks) names t =
      Turn.more names (.within t.opening (.gets (.assign t.name))) blocks := by
    simp only [Fragment.step, stepBetween, hkind]
  -- The name is consumed by the same function as any other one, where it is known to be a name.
  have hname : Follows O k (Seen O (n + 1) (.between blocks) t) Descend.identifier fun x =>
      Reads O n (.within t.opening blocks (.gets (.assign x))) := by
    refine (expect_seen hkind fun names e => ?_).bind fun t' => assume (fun r ls h => h.1) ?_
    · rw [hstep]
      intro h
      cases h
    · rintro rfl
      simp only [hstep]
      exact pure fun r ls h => h.2.reads
  exact hname.bind fun x => (value (.assign x)).bind fun e => pure fun r ls h => h

/-- **A declaration.** -/
theorem declaration (hkind : t.kind = .statement .var) :
    Follows O k (Seen O (n + 1) (.between blocks) t) Descend.declaration
      (Finished O n t.opening blocks) := by
  rw [Descend.declaration]
  refine (advance_begin hkind).bind fun _ => ?_
  -- The name after the word is what the expression is for.
  refine (identifier.mono_left fun r ls h => Turned.reads h.2).bind fun x => ?_
  refine ((value (.declare x)).mono_left ?_).bind fun e => pure fun r ls h => h
  rintro r ls ⟨t, hkind, rfl, h⟩
  simp only [stepWithin, if_pos hkind] at h
  exact h.reads

/-- **An output.** -/
theorem print (hkind : t.kind = .statement .print) :
    Follows O k (Seen O (n + 1) (.between blocks) t) Descend.print
      (Finished O n t.opening blocks) := by
  rw [Descend.print]
  refine (advance_begin hkind).bind fun _ => ?_
  refine ((ownExpression .print).mono_left fun r ls h => ?_).bind fun e => pure fun r ls h => h
  exact Turned.reads (h.2.mono (Nat.le_succ n))

/-- **A call.** It is complete with its name. -/
theorem call (hkind : t.kind = .statement .call) :
    Follows O k (Seen O (n + 1) (.between blocks) t) Descend.call
      (Finished O n t.opening blocks) := by
  rw [Descend.call]
  refine (advance_begin hkind).bind fun _ => ?_
  refine (identifier.mono_left fun r ls h => Turned.reads h.2).bind fun x => pure ?_
  rintro r ls ⟨t, hkind, rfl, h⟩
  simpa only [stepWithin, if_pos hkind] using h

/-- **The word `sub`** is the one that may be in the wrong place, and both find it so. -/
theorem subWord (hkind : t.kind = .statement .sub) :
    Follows O blocks.length (Seen O (n + 1) (.between blocks) t) Descend.subWord fun _ =>
      Reads O n (.within t.opening blocks (.name .sub)) := by
  rw [Descend.subWord]
  refine (advance_begin hkind).bind fun t? => assume (fun r ls h => h.1) ?_
  rintro rfl
  refine of_get fun d hdepth => ?_
  rw [hdepth]
  -- Outside of all blocks a name follows. Inside of one it is an error of both.
  cases blocks with
  | nil => exact pure fun r ls h => h.2.reads
  | cons b blocks =>
    have hopen : 0 < (b :: blocks).length := Nat.zero_lt_succ _
    rw [if_pos hopen]
    exact throw fun r ls h => h.2.2.symm

/-! ### One step of the recursion

Each function is right with fewer lexemes than a bound if those that it calls are, some of them with
a lower bound. -/

section Step

variable
  (hblock : ∀ hole before blocks, Follows O (blocks.length + 1)
    (Reads O n (.between (⟨o, hole, before⟩ :: blocks))) (blockFrom hole.terminators before)
    (Closed O n o hole blocks))
  (hbranches : ∀ before blocks, Follows O blocks.length
    (Reads O n (.within o blocks (.expression (.branch before) []))) (branches before)
    (Finished O n o blocks))

include hblock

/-- **No block is left open**, whether it has been read or an error has come up in it. -/
theorem block (hole : BlockHole) :
    Follows O blocks.length (Reads O n (.between (⟨o, hole, []⟩ :: blocks)))
      (Descend.block hole.terminators) (Closed O n o hole blocks) := by
  -- The count of open blocks is raised before the block and lowered after it.
  intro d ls hleft hdepth hA
  obtain ⟨result, d', ls', hrun, hleft', hdepth', h⟩ :=
    hblock hole [] blocks { d with depth := d.depth + 1 } ls hleft (congrArg (· + 1) hdepth) hA
  refine ⟨result, { d' with depth := d'.depth - 1 }, ls', ?_, hleft', ?_, h⟩
  · rw [Descend.block, hrun]
    rfl
  · exact congrArg (· - 1) hdepth'

/-- **A statement with a header and one block.** -/
theorem headed (hole : StmtHole) (header : Expr → Header) (make : Expr → Block → Stmt)
    (hfill : ∀ e, hole.fill e = .inr (header e))
    (hclose : ∀ names e body word,
      closeBlock names ⟨o, .after (header e), body.reverse⟩ blocks word =
        Turn.finish names o (make e body) blocks) :
    Follows O blocks.length (Reads O n (.within o blocks (.expression hole [])))
      (do
        let e ← Descend.expression
        let _ ← keyword (header e).word
        let (body, _) ← Descend.block (BlockHole.after (header e)).terminators
        return make e body)
      (Finished O n o blocks) := by
  -- The expression of the header, the keyword that opens the block, and the block.
  refine ((headExpression hole header hfill).mono_left
    fun r ls h => h.mono (Nat.le_succ n)).bind fun e => ?_
  refine (word (header e)).bind fun _ => ?_
  refine (block hblock (.after (header e))).bind fun body => pure fun r ls h => ?_
  simpa only [Closed, hclose] using h

include hbranches

/-- **A statement after its first word** is read alike, if blocks and branches are. -/
theorem statementOf (word : StatementKeyword) (hkind : t.kind = .statement word)
    (ho : t.opening = o) :
    Follows O blocks.length (Seen O (n + 1) (.between blocks) t) (Descend.statementOf word)
      (Finished O n o blocks) := by
  subst ho
  unfold Descend.statementOf
  -- The first word is consumed in each case, so blocks begin with one lexeme fewer.
  cases word with
  | var => exact declaration hkind
  | print => exact print hkind
  | call => exact call hkind
  | «if» =>
    refine (advance_begin hkind).bind fun _ => ?_
    exact (hbranches [] blocks).mono_left fun r ls h => Turned.reads h.2
  | «while» =>
    refine (advance_begin hkind).bind fun _ => ?_
    refine (headed hblock .whileDo .whileDo .whileDo (fun _ => rfl) ?_).mono_left
      fun r ls h => Turned.reads h.2
    simp [closeBlock, OpenBlock.body]
  | «repeat» =>
    refine (advance_begin hkind).bind fun _ => ?_
    refine (headed hblock .repeatTimes .repeatTimes .repeatTimes (fun _ => rfl) ?_).mono_left
      fun r ls h => Turned.reads h.2
    simp [closeBlock, OpenBlock.body]
  | sub =>
    refine (subWord hkind).bind fun _ => identifier.bind fun x => ?_
    refine ((block hblock (.sub x)).mono_left ?_).bind fun body => pure fun r ls h => ?_
    · rintro r ls ⟨t, hkind, rfl, h⟩
      simp only [stepWithin, if_pos hkind] at h
      exact h.reads
    · simpa only [Closed, closeBlock, OpenBlock.body, List.reverse_reverse] using h
  | exit | «break» => exact (advance_begin hkind).bind fun _ => pure fun r ls h => h.2

omit hbranches in
/-- **The branches of an `if` are read alike** from some branch on. -/
theorem branches_of {before : List (Expr × Block)}
    (hbranches : ∀ before, Follows O blocks.length
      (Reads O n (.within o blocks (.expression (.branch before) []))) (branches before)
      (Finished O n o blocks)) :
    Follows O blocks.length (Reads O (n + 1) (.within o blocks (.expression (.branch before) [])))
      (branches before) (Finished O (n + 1) o blocks) := by
  rw [Descend.branches]
  -- The condition, the keyword after it, and the body with the keyword that ends it.
  refine (headExpression (.branch before) (.branch before) fun _ => rfl).bind fun cond => ?_
  refine (word (.branch before cond)).bind fun _ => ?_
  refine (block hblock (.after (.branch before cond))).bind fun body => ?_
  obtain ⟨body, k⟩ := body
  dsimp only
  split
  -- A further branch follows.
  case h_1 =>
    refine ((hbranches _).mono_left fun r ls h => ?_).mono_right fun s r ls h => ?_
    · simp only [Closed, closeBlock, OpenBlock.body, List.reverse_reverse] at h
      exact h.reads
    · exact Turned.mono (Nat.le_succ n) h
  -- The last branch has no condition, and its end completes the statement.
  case h_2 =>
    refine ((block hblock (.otherwise ((cond, body) :: before))).mono_left ?_).bind
      fun last => pure fun r ls h => ?_
    · intro r ls h
      simp only [Closed, closeBlock, OpenBlock.body, List.reverse_reverse] at h
      exact h.reads
    · simp only [Closed, closeBlock, OpenBlock.body, List.reverse_reverse] at h
      exact h.mono (Nat.le_succ n)
  -- The statement ends with the branch.
  case h_3 helseif helse =>
    refine pure fun r ls h => ?_
    simp only [Closed, closeBlock_endif helseif helse] at h
    exact h.mono (Nat.le_succ n)

end Step

/-- **The statements of a block are read alike** from some statement on, if one statement is, and the
others with one lexeme fewer. -/
theorem blockFrom_of {hole : BlockHole} {before : List Stmt}
    (hstmt : ∀ t, terminator? hole.terminators t = none → ∀ before,
      Follows O (blocks.length + 1) (Seen O (n + 1) (.between (⟨o, hole, before⟩ :: blocks)) t)
        Descend.statement (Ended O n (⟨o, hole, before⟩ :: blocks)))
    (hblock : ∀ before, Follows O (blocks.length + 1)
      (Reads O n (.between (⟨o, hole, before⟩ :: blocks))) (blockFrom hole.terminators before)
      (Closed O n o hole blocks)) :
    Follows O (blocks.length + 1) (Reads O (n + 1) (.between (⟨o, hole, before⟩ :: blocks)))
      (blockFrom hole.terminators before) (Closed O (n + 1) o hole blocks) := by
  rw [Descend.blockFrom]
  refine peek_or_end rfl fun t => ?_
  split
  case h_1 word hword =>
    -- The block ends.
    obtain ⟨hkind, hmem⟩ := terminator?_eq_some hword
    have hstep (names) : Fragment.step (.between (⟨o, hole, before⟩ :: blocks)) names t =
        closeBlock names ⟨o, hole, before⟩ blocks word := by
      simp only [Fragment.step, stepBetween, hkind, hmem, if_true]
    refine (advance_seen fun names e => ?_).bind fun t? => pure fun r ls h => ?_
    · rw [hstep]
      exact closeBlock_ne_decline
    · simp only [hstep] at h
      simpa only [Closed, List.reverse_reverse] using h.2.mono (Nat.le_succ n)
  -- The token does not end the block, so it begins a statement.
  case h_2 hword =>
    refine (hstmt t hword before).bind fun s => ?_
    exact (hblock (s :: before)).mono_right fun body r ls h => Turned.mono (Nat.le_succ n) h

/-- **A statement is read alike** if what follows its first word is. -/
theorem statement_of (hends : ∀ b ∈ blocks.head?, terminator? b.hole.terminators t = none)
    (hof : ∀ word, t.kind = .statement word →
      Follows O blocks.length (Seen O (n + 1) (.between blocks) t) (Descend.statementOf word)
        (Finished O n t.opening blocks)) :
    Follows O blocks.length (Seen O (n + 1) (.between blocks) t) Descend.statement
      (Ended O n blocks) := by
  rw [Descend.statement]
  refine peek_seen.bind fun t? => assume (fun r ls h => h.1) ?_
  rintro rfl
  -- Every statement ends with a note about it.
  have hnote (s) : Follows O blocks.length (Finished O n t.opening blocks s)
      (do
        Descend.note (.parsedStatement t.text t.span.start)
        return s)
      (Ended O n blocks) :=
    bind (note fun r ls h => Finished.note h) fun _ => pure fun r ls h => h
  dsimp only
  split
  -- By the kind of the first token, of which two kinds begin a statement.
  case h_1 word hkind =>
    exact ((hof word hkind).mono_left fun r ls h => h.2).bind hnote
  case h_2 hkind =>
    exact ((assignment hkind).mono_left fun r ls h => h.2).bind hnote
  -- Any other token is an error of both, which leave it where it is.
  case h_3 hstatement hidentifier =>
    refine bind (B := fun s => Finished O n t.opening blocks s) (throw fun r ls h => ?_) hnote
    exact h.2.eq_of_unknown fun names => stepBetween_unknown hstatement hidentifier hends

/-! ### Statements and blocks -/

/-- **The descent reads statements and blocks as the parser that runs does.** -/
theorem statements_blocks (n : Nat) :
    (∀ blocks t, (∀ b ∈ blocks.head?, terminator? b.hole.terminators t = none) →
      Follows O blocks.length (Seen O (n + 1) (.between blocks) t) Descend.statement
        (Ended O n blocks)) ∧
    (∀ o hole before blocks, Follows O (blocks.length + 1)
      (Reads O n (.between (⟨o, hole, before⟩ :: blocks))) (blockFrom hole.terminators before)
      (Closed O n o hole blocks)) ∧
    ∀ o before blocks, Follows O blocks.length
      (Reads O n (.within o blocks (.expression (.branch before) []))) (branches before)
      (Finished O n o blocks) := by
  -- By induction on the bound. With no lexemes left there is no block, and a statement needs nothing
  -- more.
  induction n with
  | zero =>
    refine ⟨fun blocks t hends => ?_, fun _ _ _ _ => reads_zero, fun _ _ _ => reads_zero⟩
    refine statement_of hends fun word hkind => ?_
    exact statementOf (fun _ _ _ => reads_zero) (fun _ _ => reads_zero) word hkind rfl
  | succ n ih =>
    obtain ⟨hstmt, hblock, hbranches⟩ := ih
    have hblock' (o hole before blocks) : Follows O (blocks.length + 1)
        (Reads O (n + 1) (.between (⟨o, hole, before⟩ :: blocks)))
        (blockFrom hole.terminators before) (Closed O (n + 1) o hole blocks) := by
      -- The token after the statements of a block does not end the block, or it would have ended it.
      refine blockFrom_of (fun t hword before => ?_) fun before => hblock o hole before blocks
      refine hstmt (⟨o, hole, before⟩ :: blocks) t ?_
      rintro b ⟨⟩
      exact hword
    have hbranches' (o before blocks) : Follows O blocks.length
        (Reads O (n + 1) (.within o blocks (.expression (.branch before) []))) (branches before)
        (Finished O (n + 1) o blocks) :=
      branches_of (hblock o) fun before => hbranches o before blocks
    refine ⟨fun blocks t hends => ?_, hblock', hbranches'⟩
    refine statement_of hends fun word hkind => ?_
    exact statementOf (hblock' t.opening) (hbranches' t.opening) word hkind rfl

/-- **Whether a token is left** is asked by a look ahead. -/
theorem hasNext : Follows O k (Reads O n p) (modifyGet Descent.hasNext) fun
    | true => fun r ls => ∃ t, Seen O n p t r ls
    | false => fun r ls => ls = [] ∧ Reads O n p r ls := by
  -- It is a look ahead with its answer reduced to whether there is one.
  have hpeek : (modifyGet Descent.hasNext : Descend Bool) = do
      let t? ← Descend.peek
      return t?.isSome :=
    rfl
  rw [hpeek]
  refine peek_reads.bind fun t? => pure fun r ls h => ?_
  cases t? with
  | none => exact h
  | some t => exact ⟨t, h⟩

/-- **The descent reads the next statement as the parser that runs does**, if there is one. -/
theorem next : Follows O 0 (Reads O (n + 1) .start) Descend.next fun s? r ls =>
    O = (.ok s?, ⟨ls, r⟩) := by
  rw [Descend.next]
  refine hasNext.bind fun more => ?_
  cases more with
  | true =>
    refine of_exists fun t => ?_
    have hstatement : Follows O 0 (Seen O (n + 1) .start t) Descend.statement (Ended O n []) :=
      (statements_blocks n).1 [] t nofun
    exact hstatement.bind fun s => pure fun r ls h => h
  | false =>
    refine pure fun r ls h => ?_
    obtain ⟨rfl, -, h⟩ := h
    exact h.symm

end Follows

/-- **The next statement is what the parser that runs gives**, whatever there is. The lookahead is in
its place then, and no block is open. -/
theorem next_eq {d : Descent} (hleft : d.Left ls) (hdepth : d.depth = 0) :
    ∃ result d' ls', next d = some (result, d') ∧ d'.Left ls' ∧ d'.depth = 0 ∧
      Parser.statementFrom .start d.reader ls = (result, ⟨ls', d'.reader⟩) := by
  -- The bound is one more than the lexemes that are left.
  have hreads :
      Reads (Parser.statementFrom .start d.reader ls) (ls.length + 1) .start d.reader ls :=
    ⟨Nat.lt_succ_self _, rfl⟩
  obtain ⟨result, d', ls', hrun, hleft', hdepth', h⟩ := Follows.next d ls hleft hdepth hreads
  refine ⟨result, d', ls', hrun, hleft', hdepth', ?_⟩
  cases result with
  | ok s? => exact h
  | error e => exact h

end Descend

end Silly
