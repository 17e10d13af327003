import Silly.Parser.Basic
import Silly.Proofs.Table

/-!
# Reading with all names known

A parser names texts as it goes, so each of its steps hands on another table of names. The tables
only grow, and a step looks at nothing in a table but the names of the token at hand and of its
contents. So it comes to the same verdict with every later table, and in particular with the one
that the whole of the reading ends with (`Fragment.step_of_extends`).

This makes the table a constant: `readAll` reads a row of tokens with one table that is given
beforehand, and a parser's answer is that of `readAll` with the parser's last table
(`parse_eq_readAll`). What is said about the grammar is said about `readAll`.
-/

namespace Silly

variable {names names' : Interner}

/-- The token with the name that `names` gives its text. -/
def Token.named (names : Interner) (t : Token) : Token := { t with name := names.nameOf t.text }

@[simp] theorem Token.named_kind (t : Token) : (t.named names).kind = t.kind := rfl

@[simp] theorem Token.named_text (t : Token) : (t.named names).text = t.text := rfl

@[simp] theorem Token.named_name (t : Token) : (t.named names).name = names.nameOf t.text := rfl

@[simp] theorem Token.named_span (t : Token) : (t.named names).span = t.span := rfl

@[simp] theorem Token.named_contents (t : Token) : (t.named names).contents = t.contents := rfl

/-- A statement by its first token. -/
abbrev Token.opening (t : Token) : Opening := ⟨t.text, t.span.start⟩

/-- **The verdict on one token**, where `names` gives all names. -/
def Fragment.judge (names : Interner) (p : Fragment) (t : Token) : Verdict :=
  (p.step names (t.named names)).verdict

/-- **Reading a row of tokens**, where `names` gives all names: what the partly read statement `p`
and the statements `before` it, newest first, come to. -/
def readAll (names : Interner) (p : Fragment) (before : List Stmt) :
    List Token → Except ParseError Program
  | [] =>
    match p.atEnd with
    | none => .ok before.reverse
    | some e => .error e
  | t :: ts =>
    match p.judge names t with
    | .more p => readAll names p before ts
    | .complete s => readAll names .start (s :: before) ts
    | .reject e | .decline e => .error e

/-! ### The names that a step hands on -/

section Names

variable {o : Opening} {hole : StmtHole} {blocks : List OpenBlock} {around : List ExprHole}
  {e : Expr} {s : Stmt} {t : Token}

-- A step names something in one place only, so of all its parts but one the table comes out as it
-- went in.
@[simp] theorem Turn.more_names {phase : Phase} : (Turn.more names phase blocks).names = names := rfl

@[simp] theorem Turn.unexpected_names {x : Expected} :
    (Turn.unexpected names t x).names = names := rfl

@[simp] theorem Turn.noting_names {turn : Turn} {event : Event} :
    (turn.noting event).names = turn.names := rfl

@[simp] theorem Turn.noting_verdict {turn : Turn} {event : Event} :
    (turn.noting event).verdict = turn.verdict := rfl

@[simp] theorem Turn.finish_names : (Turn.finish names o s blocks).names = names := by
  cases blocks <;> rfl

@[simp] theorem deliver_names : (deliver names o hole blocks e around).names = names := by
  unfold deliver
  split
  · split <;> simp
  all_goals rfl

/-- The end of a block names nothing. -/
@[simp] theorem closeBlock_names {b : OpenBlock} {k : Keyword} :
    (closeBlock names b blocks k).names = names := by
  unfold closeBlock
  split
  · dsimp only
    split <;> simp
  all_goals simp

@[simp] theorem beginStatement_names {k : StatementKeyword} :
    (beginStatement names blocks t k).names = names := by
  cases k <;> simp only [beginStatement, Turn.more_names, Turn.finish_names]
  split <;> rfl

/-- Between statements nothing is named. -/
@[simp] theorem stepBetween_names : (stepBetween names blocks t).names = names := by
  unfold stepBetween
  split
  · exact beginStatement_names
  · rfl
  · split
    · split
      · exact closeBlock_names
      · rfl
    · rfl
  · rfl

/-- Only the contents of a string literal are named by a step. -/
theorem extends_stepExpression :
    names.Extends (stepExpression names o hole blocks around t).names := by
  unfold stepExpression
  split
  case h_5 => split <;> simp [Interner.Extends.refl]
  case h_6 => simpa using Interner.extends_intern names t.contents
  all_goals simp [Interner.Extends.refl]

/-- **Within a statement names are only added.** -/
theorem extends_stepWithin {need : Need} :
    names.Extends (stepWithin names o blocks t need).names := by
  cases need with
  | expression => exact extends_stepExpression
  | name use =>
    simp only [stepWithin]
    split
    · cases use <;> simp [Interner.Extends.refl]
    · simp [Interner.Extends.refl]
  | gets | operator | closing | word =>
    simp only [stepWithin]
    split <;> simp [Interner.Extends.refl]

/-- **A step only adds to the names.** -/
theorem Fragment.extends_step (p : Fragment) (t : Token) : names.Extends (p.step names t).names := by
  obtain ⟨phase, blocks⟩ := p
  cases phase with
  | between =>
    rw [Fragment.step, stepBetween_names]
    exact .refl _
  | within => exact extends_stepWithin

/-! ### The verdict of a step

Each part of a step comes to the same verdict with any table. The one exception is a string literal,
whose verdict holds the name of its contents. -/

theorem Turn.finish_verdict (names names' : Interner) :
    (Turn.finish names o s blocks).verdict = (Turn.finish names' o s blocks).verdict := by
  cases blocks <;> rfl

/-- A delivered expression is judged the same with both tables. -/
theorem deliver_verdict (names names' : Interner) :
    (deliver names o hole blocks e around).verdict =
      (deliver names' o hole blocks e around).verdict := by
  unfold deliver
  split
  · split
    · exact Turn.finish_verdict names names'
    · rfl
  all_goals rfl

/-- So is the end of a block. -/
theorem closeBlock_verdict {b : OpenBlock} {k : Keyword} (names names' : Interner) :
    (closeBlock names b blocks k).verdict = (closeBlock names' b blocks k).verdict := by
  unfold closeBlock
  split
  · dsimp only
    split
    · rfl
    · rfl
    · exact Turn.finish_verdict names names'
  all_goals exact Turn.finish_verdict names names'

/-- So is the first word of a statement. -/
theorem beginStatement_verdict {k : StatementKeyword} (names names' : Interner) :
    (beginStatement names blocks t k).verdict = (beginStatement names' blocks t k).verdict := by
  cases k with
  | sub =>
    simp only [beginStatement]
    split <;> rfl
  | exit | «break» => exact Turn.finish_verdict names names'
  | _ => rfl

/-- **A token between statements** has the same verdict with both tables. -/
theorem stepBetween_verdict (names names' : Interner) :
    (stepBetween names blocks t).verdict = (stepBetween names' blocks t).verdict := by
  unfold stepBetween
  split
  · exact beginStatement_verdict names names'
  · rfl
  · split
    · split
      · exact closeBlock_verdict names names'
      · rfl
    · rfl
  · rfl

/-- A token where an expression is needed has the same verdict with each later table. -/
theorem stepExpression_of_extends
    (h : (stepExpression names o hole blocks around t).names.Extends names') :
    (stepExpression names' o hole blocks around t).verdict =
      (stepExpression names o hole blocks around t).verdict := by
  unfold stepExpression at h ⊢
  split at h
  -- An integer is read from its text.
  case h_5 => split <;> first | exact deliver_verdict names' names | rfl
  case h_6 =>
    -- The tree holds the name of the contents, which the later table still gives them.
    rw [deliver_names] at h
    have hname : (names'.intern t.contents).1 = (names.intern t.contents).1 :=
      Interner.nameOf_of_extends h
    dsimp only
    rw [hname]
    exact deliver_verdict _ _
  case h_3 | h_4 | h_8 => exact deliver_verdict names' names
  all_goals rfl

/-- **A token within a statement** has the same verdict with each later table. -/
theorem stepWithin_of_extends {need : Need}
    (h : (stepWithin names o blocks t need).names.Extends names') :
    (stepWithin names' o blocks t need).verdict = (stepWithin names o blocks t need).verdict := by
  cases need with
  | expression => exact stepExpression_of_extends h
  | name use =>
    simp only [stepWithin]
    split
    · cases use with
      | call => exact Turn.finish_verdict names' names
      | _ => rfl
    · rfl
  | closing =>
    simp only [stepWithin]
    split
    · exact deliver_verdict names' names
    · rfl
  | gets | word =>
    simp only [stepWithin]
    split <;> rfl
  | operator =>
    simp only [stepWithin]
    split <;> rfl

/-- **A step comes to the same verdict with each later table.** -/
theorem Fragment.step_of_extends {p : Fragment} (h : (p.step names t).names.Extends names') :
    (p.step names' t).verdict = (p.step names t).verdict := by
  obtain ⟨phase, blocks⟩ := p
  cases phase with
  | between => exact stepBetween_verdict names' names
  | within => exact stepWithin_of_extends h

/-! ### What a step can come to -/

/-- **What a step comes to** with one table and with another, of which each is for the same token. More is
needed, and the log may say something of the token, or a statement is finished, or the token is an error. It
is taken then, unless it is one that begins no statement. What has been read by then may differ. -/
inductive Turn.Matches : Turn → Turn → Prop
  | more {names names' : Interner} {phase phase' : Phase} {bs bs' : List OpenBlock} :
      Matches (Turn.more names phase bs) (Turn.more names' phase' bs')
  | unary {names names' : Interner} {phase phase' : Phase} {bs bs' : List OpenBlock} {op : UnaryOp} :
      Matches ((Turn.more names phase bs).noting (.unaryExpression op))
        ((Turn.more names' phase' bs').noting (.unaryExpression op))
  | binary {names names' : Interner} {phase phase' : Phase} {bs bs' : List OpenBlock} {op : BinaryOp} :
      Matches ((Turn.more names phase bs).noting (.binaryExpression op))
        ((Turn.more names' phase' bs').noting (.binaryExpression op))
  | finish {names names' : Interner} {o : Opening} {s s' : Stmt} {bs : List OpenBlock} :
      Matches (Turn.finish names o s bs) (Turn.finish names' o s' bs)
  | reject {names names' : Interner} {e : ParseError} : (∀ found span, e ≠ .unknownStatement found span) →
      Matches ⟨names, .reject e, []⟩ ⟨names', .reject e, []⟩
  | unknown {names names' : Interner} {t : Token} : Matches (Turn.unknown names t) (Turn.unknown names' t)

/-- **What is noted of a token** is the same with both tables. -/
theorem Turn.Matches.events {turn turn' : Turn} (h : turn.Matches turn') :
    turn.events = turn'.events := by
  cases h with
  | @finish _ _ _ _ _ bs => cases bs <;> rfl
  | _ => rfl

theorem Turn.Matches.unexpected {x : Expected} :
    (Turn.unexpected names t x).Matches (Turn.unexpected names' t x) :=
  .reject fun _ _ h => by cases h

/-- **A delivered expression** leaves the same needed, whatever it is. -/
theorem matches_deliver {e e' : Expr} :
    (deliver names o hole blocks e around).Matches (deliver names' o hole blocks e' around) := by
  cases around with
  | nil =>
    -- The hole tells whether the expression is the last of its statement.
    cases hole with
    | assign | declare | print => exact .finish
    | branch | whileDo | repeatTimes => exact .more
  | cons hole around => cases hole <;> exact .more

/-- **The end of a block** is the same kind of turn. -/
theorem matches_closeBlock {b : OpenBlock} {k : Keyword} :
    (closeBlock names b blocks k).Matches (closeBlock names' b blocks k) := by
  unfold closeBlock
  split
  · dsimp only
    split
    · exact .more
    · exact .more
    · exact .finish
  all_goals exact .finish

/-- The first word of a statement is the same kind of turn. -/
theorem matches_beginStatement {k : StatementKeyword} :
    (beginStatement names blocks t k).Matches (beginStatement names' blocks t k) := by
  cases k with
  -- Only a subroutine may be in the wrong place, which the open blocks tell.
  | sub =>
    simp only [beginStatement]
    split
    · exact .more
    · exact .reject fun _ _ h => by cases h
  | exit | «break» => exact .finish
  | _ => exact .more

/-- **A token between statements** is the same kind of turn. -/
theorem matches_stepBetween :
    (stepBetween names blocks t).Matches (stepBetween names' blocks t) := by
  unfold stepBetween
  split
  · exact matches_beginStatement
  · exact .more
  · split
    · split
      · exact matches_closeBlock
      · exact .unknown
    · exact .unknown
  · exact .unknown

/-- A token where an expression is needed is the same kind of turn. -/
theorem matches_stepExpression :
    (stepExpression names o hole blocks around t).Matches
      (stepExpression names' o hole blocks around t) := by
  unfold stepExpression
  split
  case h_3 | h_4 | h_6 | h_8 => exact matches_deliver
  case h_5 =>
    split
    · exact matches_deliver
    · exact .reject fun _ _ h => by cases h
  case h_7 => exact .unary
  case h_9 => exact .unexpected
  all_goals exact .more

/-- **A token within a statement** is the same kind of turn. -/
theorem matches_stepWithin {need : Need} :
    (stepWithin names o blocks t need).Matches (stepWithin names' o blocks t need) := by
  cases need with
  | expression => exact matches_stepExpression
  | name use =>
    simp only [stepWithin]
    split
    · cases use with
      | call => exact .finish
      | _ => exact .more
    · exact .unexpected
  | closing =>
    simp only [stepWithin]
    split
    · exact matches_deliver
    · exact .unexpected
  | gets | word =>
    simp only [stepWithin]
    split
    · exact .more
    · exact .unexpected
  | operator =>
    simp only [stepWithin]
    split
    · exact .binary
    · exact .unexpected

/-- **A step comes to the same kind of turn with every table.** -/
theorem Fragment.matches_step (p : Fragment) (names names' : Interner) (t : Token) :
    (p.step names t).Matches (p.step names' t) := by
  obtain ⟨phase, bs⟩ := p
  cases phase with
  | between => exact matches_stepBetween
  | within => exact matches_stepWithin

end Names

/-! ### A parser's reading -/

/-- The token that a parser makes of a lexeme is the one that each later table makes of it. -/
theorem Lexeme.token_named {l : Lexeme} (h : (l.token names).2.Extends names') :
    (l.token names').1.named names' = (l.token names).1 := by
  have hname : names'.nameOf l.text = (names.intern l.text).1 := Interner.nameOf_of_extends h
  simp only [Token.named, Lexeme.token, hname]

/-- One lexeme read and one token judged are the same, where the table is a later one. -/
theorem Fragment.judge_of_extends {p : Fragment} {l : Lexeme}
    (h : (p.step (l.token names).2 (l.token names).1).names.Extends names') :
    p.judge names' (l.token names').1 = (p.step (l.token names).2 (l.token names).1).verdict := by
  -- The token is named before the step, and the later table has that name as well.
  have hl : (l.token names).2.Extends names' := (p.extends_step _).trans h
  rw [Fragment.judge, Lexeme.token_named hl]
  exact Fragment.step_of_extends h

/-- What is judged of a token does not depend on the name that it has. -/
theorem Fragment.judge_token {p : Fragment} {l : Lexeme} (names'' : Interner) :
    p.judge names' (l.token names).1 = p.judge names' (l.token names'').1 := rfl

namespace Reader

/-- **Reading one lexeme.** The verdict is that of the step, and the names are the step's. -/
theorem feed_eq (r : Reader) (p : Fragment) (l : Lexeme) :
    (r.feed p l).1 = (p.step (l.token r.names).2 (l.token r.names).1).verdict ∧
      (r.feed p l).2.names = (p.step (l.token r.names).2 (l.token r.names).1).names := by
  simp only [feed]
  split
  · next h => exact ⟨h.symm, rfl⟩
  · exact ⟨rfl, rfl⟩

/-- Reading one lexeme only adds to the names. -/
theorem extends_feed (r : Reader) (p : Fragment) (l : Lexeme) :
    r.names.Extends (r.feed p l).2.names := by
  rw [(r.feed_eq p l).2]
  exact (Interner.extends_intern r.names l.text).trans (p.extends_step _)

/-- **The verdict on one lexeme is that on its token**, where the table is a later one. -/
theorem judge_feed {r : Reader} {p : Fragment} {l : Lexeme} (h : (r.feed p l).2.names.Extends names')
    (names : Interner) : p.judge names' (l.token names).1 = (r.feed p l).1 := by
  rw [(r.feed_eq p l).1, Fragment.judge_token r.names]
  exact Fragment.judge_of_extends ((r.feed_eq p l).2 ▸ h)

end Reader

namespace Parser

/-- A reading only adds to the names. -/
theorem extends_programFrom (p : Fragment) (before : List Stmt) (r : Reader) (ls : List Lexeme) :
    r.names.Extends (programFrom p before r ls).2.names := by
  -- By induction on the lexemes, each of which adds to the names of those before it.
  induction ls generalizing p before r with
  | nil =>
    rw [programFrom]
    split <;> exact .refl _
  | cons l ls ih =>
    have hfeed := r.extends_feed p l
    rw [programFrom]
    split
    · next p' r' hr =>
      rw [hr] at hfeed
      exact hfeed.trans (ih p' before r')
    · next s r' hr =>
      rw [hr] at hfeed
      exact hfeed.trans (ih .start (s :: before) r')
    all_goals
      next hr =>
      rw [hr] at hfeed
      exact hfeed

/-- The names after one lexeme are among those after all of them. -/
theorem extends_programFrom_cons (p : Fragment) (before : List Stmt) (r : Reader) (l : Lexeme)
    (ls : List Lexeme) :
    (r.feed p l).2.names.Extends (programFrom p before r (l :: ls)).2.names := by
  rw [programFrom]
  split
  · next p' r' hr =>
    rw [hr]
    exact extends_programFrom p' before r' ls
  · next s r' hr =>
    rw [hr]
    exact extends_programFrom .start (s :: before) r' ls
  all_goals
    next hr =>
    rw [hr]
    exact .refl _

/-- **A parser reads what is read with its last table.** -/
theorem programFrom_eq_readAll {p : Fragment} {before : List Stmt} {r : Reader} {ls : List Lexeme}
    (h : (programFrom p before r ls).2.names.Extends names') (names : Interner) :
    (programFrom p before r ls).1 = readAll names' p before (tokensOf ls names).1 := by
  -- By induction on the lexemes. The verdict on each of them is the same with the last table.
  induction ls generalizing p before r names with
  | nil =>
    rw [programFrom, tokensOf, readAll]
    split <;> simp_all
  | cons l ls ih =>
    have hfeed := (extends_programFrom_cons p before r l ls).trans h
    have hjudge : p.judge names' (l.token names).1 = (r.feed p l).1 := Reader.judge_feed hfeed names
    -- Both readings go on by the same verdict.
    rw [programFrom] at h ⊢
    simp only [tokensOf, readAll, hjudge]
    split at h
    · next hr =>
      simp only [hr]
      exact ih h _
    · next hr =>
      simp only [hr]
      exact ih h _
    all_goals
      next hr =>
      simp only [hr]

end Parser

/-- Reading a source only adds to the names. -/
theorem extends_parse (source : String) (names : Interner) :
    names.Extends (parse source names).2 :=
  Parser.extends_programFrom .start [] (.ofNames names) (lexemes source)

/-- The names that a reading leaves are those that it began with, and more. -/
theorem extends_of_parse {source : String} {names names' : Interner}
    {result : Except ParseError Program} (h : parse source names = (result, names')) :
    names.Extends names' := by
  have hextends := extends_parse source names
  rwa [h] at hextends

/-- **A source is read as its tokens are read with all names known.** -/
theorem parse_eq_readAll (source : String) (names : Interner) :
    (parse source names).1 =
      readAll (parse source names).2 .start [] (tokenize source names).1 :=
  Parser.programFrom_eq_readAll (.refl _) names

end Silly
