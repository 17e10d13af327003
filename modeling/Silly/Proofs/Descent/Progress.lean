import Silly.Proofs.Descent.Statement
import Silly.Proofs.Grammar.Completeness

/-!
# What a call consumes

A parser is called for the next statement, for all the statements that are left, or for whether a
token is left (`Call`). Here is what a row of calls does to the parser that runs. Three things are
said of it.

* Each call consumes some of the tokens that are left, and the next call begins after them
  (`Parser.Consumes`). A call for a statement consumes at least one, unless none is left or the next
  one begins no statement (`Parser.statement_consumes`).
* The answers depend on the tokens that are left and on the names. How many tokens were consumed
  before and what the log says does not matter (`Parser.Alike.calls`).
* Whoever calls for statements until there is none, or until an error is repeated, makes at most one
  call more than there are tokens (`Parser.exists_last_call`).

All statements are read one after the other (`Parser.programFrom_eq`), so what is said of one of them
is enough (`Parser.induction`).
-/

namespace Silly

/-- **A call** of a parser. -/
inductive Call
  | hasNext | statement | program

/-- **The answer** to a call. -/
inductive Answer
  | more (more : Bool)
  | statement (result : Except ParseError (Option Stmt))
  | program (result : Except ParseError Program)

namespace Parser

/-- **One call.** -/
def call (p : Parser) : Call → Answer × Parser
  | .hasNext =>
    let (more, p) := p.hasNext
    (.more more, p)
  | .statement =>
    let (result, p) := p.statement
    (.statement result, p)
  | .program =>
    let (result, p) := p.program
    (.program result, p)

/-- **A row of calls**, each of which finds the parser as the one before it has left it. -/
def calls (p : Parser) : List Call → List Answer × Parser
  | [] => ([], p)
  | c :: cs =>
    let (answer, p) := p.call c
    let (answers, p) := p.calls cs
    (answer :: answers, p)

theorem call_statement (p : Parser) :
    p.call .statement = (.statement p.statement.1, p.statement.2) :=
  rfl

theorem calls_cons (p : Parser) (c : Call) (cs : List Call) :
    p.calls (c :: cs) =
      ((p.call c).1 :: ((p.call c).2.calls cs).1, ((p.call c).2.calls cs).2) :=
  rfl

end Parser

variable {f : Fragment} {p p' p'' : Parser} {r r' : Reader} {l : Lexeme} {ls : List Lexeme}
  {n n' : Nat}

/-! ### What one statement consumes -/

/-- A token that is declined is not taken. -/
theorem Reader.taken_feed_of_decline {e : ParseError} (h : (r.feed f l).1 = .decline e) :
    (r.feed f l).2.taken = r.taken := by
  unfold feed at h ⊢
  dsimp only at h ⊢
  -- Everything but a decline takes the token, so such a case contradicts what is given.
  split at h
  · rfl
  · next hv => exact absurd h (hv e)

/-- A token of this kind begins no statement. -/
def TokenKind.BeginsNone (kind : TokenKind) : Prop :=
  (∀ word, kind ≠ .statement word) ∧ kind ≠ .identifier

/-- **Only a token that begins no statement is declined** between two statements. -/
theorem Token.beginsNone_of_decline {names : Interner} {t : Token} {e : ParseError}
    (h : (Fragment.start.step names t).verdict = .decline e) : t.kind.BeginsNone := by
  -- At the start no block is open, so no keyword is one that ends a block.
  change (stepBetween names [] t).verdict = .decline e at h
  constructor
  · intro word hkind
    simp only [stepBetween, hkind] at h
    exact beginStatement_ne_decline h
  · intro hkind
    simp only [stepBetween, hkind] at h
    cases h

/-- **Some tokens were consumed** between two points: `n` of the lexemes that were left. -/
structure Parser.Consumes (p : Parser) (n : Nat) (p' : Parser) : Prop where
  rest : p'.rest = p.rest.drop n
  taken : p'.reader.taken = p.reader.taken + n
  le : n ≤ p.rest.length

namespace Parser

theorem Consumes.refl (p : Parser) : p.Consumes 0 p := ⟨rfl, rfl, Nat.zero_le _⟩

/-- What is consumed adds up. -/
theorem Consumes.trans (h : p.Consumes n p') (h' : p'.Consumes n' p'') :
    p.Consumes (n + n') p'' := by
  obtain ⟨hrest, htaken, hle⟩ := h
  obtain ⟨hrest', htaken', hle'⟩ := h'
  rw [hrest, List.length_drop] at hle'
  refine ⟨?_, ?_, by omega⟩
  · rw [hrest', hrest, List.drop_drop]
  · rw [htaken', htaken, Nat.add_assoc]

/-- A token that is taken is one more. -/
theorem Consumes.cons (htaken : r'.taken = r.taken + 1) (h : Consumes ⟨ls, r'⟩ n p) :
    Consumes ⟨l :: ls, r⟩ (n + 1) p := by
  obtain ⟨hrest, htaken', hle⟩ := h
  refine ⟨hrest, ?_, Nat.succ_le_succ hle⟩
  rw [htaken']
  dsimp only
  omega

theorem Consumes.length_lt (h : p.Consumes (n + 1) p') : p'.rest.length < p.rest.length := by
  have hle := h.le
  rw [h.rest, List.length_drop]
  omega

/-- A reading that consumes no token ends with the source, or the next token is declined. -/
theorem statementFrom_consumes (f : Fragment) (r : Reader) (ls : List Lexeme) :
    ∃ n, Consumes ⟨ls, r⟩ n (statementFrom f r ls).2 ∧
      (n = 0 → ls = [] ∨ ∃ l ls' e, ls = l :: ls' ∧ (r.feed f l).1 = .decline e) := by
  -- By induction on the lexemes. Each one is consumed and counted until a verdict other than to go on.
  induction ls generalizing f r with
  | nil =>
    refine ⟨0, ?_, fun _ => .inl rfl⟩
    rw [statementFrom]
    split <;> exact .refl _
  | cons l ls ih =>
    have htaken := r.taken_feed f l
    have hdeclined (e) := r.taken_feed_of_decline (f := f) (l := l) (e := e)
    rw [statementFrom]
    cases hfeed : r.feed f l with | mk verdict r' =>
    rw [hfeed] at htaken hdeclined
    cases verdict with
    | more f' =>
      obtain ⟨n, hconsumes, -⟩ := ih f' r'
      refine ⟨n + 1, hconsumes.cons (htaken fun e h => ?_), fun h => absurd h n.succ_ne_zero⟩
      cases h
    | complete | reject =>
      refine ⟨1, .cons (htaken fun e h => ?_) (.refl _), fun h => absurd h Nat.one_ne_zero⟩
      cases h
    -- A lexeme that is declined is the next one still, and nothing was counted.
    | decline e =>
      refine ⟨0, ⟨rfl, hdeclined e rfl, Nat.zero_le _⟩, fun _ => .inr ⟨l, ls, e, rfl, ?_⟩⟩
      rw [hfeed]

/-- **A call for a statement consumes a token** if there is one and it begins a statement. -/
theorem statement_consumes (p : Parser) :
    ∃ n, p.Consumes n p.statement.2 ∧ (n = 0 →
      (p.rest = [] ∧ p.statement.1 = .ok none) ∨
        ∃ l ls, p.rest = l :: ls ∧ l.kind.BeginsNone) := by
  obtain ⟨ls, r⟩ := p
  -- Between two statements nothing is open, so the end of the source is no error.
  obtain ⟨n, hconsumes, hzero⟩ := statementFrom_consumes .start r ls
  refine ⟨n, hconsumes, fun hn => ?_⟩
  obtain rfl | ⟨l, ls, e, rfl, hdecline⟩ := hzero hn
  · exact .inl ⟨rfl, rfl⟩
  · rw [(r.feed_eq .start l).1] at hdecline
    exact .inr ⟨l, ls, rfl, Token.beginsNone_of_decline hdecline⟩

/-- **A token that begins no statement is an error and stays**, so that the next call is about it
again. -/
theorem statement_of_beginsNone (h : l.kind.BeginsNone) (r : Reader) :
    statement ⟨l :: ls, r⟩ = (.error (.unknownStatement l.text l.span), ⟨l :: ls, r.look l⟩) := by
  have hstep : Fragment.start.step (l.token r.names).2 (l.token r.names).1 =
      Turn.unknown (l.token r.names).2 (l.token r.names).1 :=
    Descend.stepBetween_unknown h.1 h.2 nofun
  rw [statement, statementFrom, Reader.feed]
  simp only [hstep, Turn.unknown]
  rfl

/-- A statement has at least one token. -/
theorem statement_ok {s : Stmt} (h : p.statement = (.ok (some s), p')) :
    ∃ n, p.Consumes (n + 1) p' := by
  obtain ⟨n, hconsumes, hzero⟩ := p.statement_consumes
  rw [h] at hconsumes hzero
  rcases n with - | n
  -- With no token consumed there is no statement: the source ends or the token is declined.
  · obtain ⟨-, hnone⟩ | ⟨l, ls, hrest, hbegins⟩ := hzero rfl
    · cases hnone
    · obtain ⟨rest, r⟩ := p
      obtain rfl : rest = l :: ls := hrest
      rw [statement_of_beginsNone hbegins] at h
      cases h
  · exact ⟨n, hconsumes⟩

/-! ### All the statements one after the other -/

/-- **Induction over the statements that are left.** -/
theorem induction {C : Parser → Prop}
    (h : ∀ p, (∀ s p', p.statement = (.ok (some s), p') → C p') → C p) (p : Parser) : C p := by
  -- By strong induction on how many lexemes are left, of which a statement consumes at least one.
  induction hlen : p.rest.length using Nat.strongRecOn generalizing p with
  | ind m ih =>
  subst hlen
  refine h p fun s p' hstatement => ?_
  obtain ⟨n, hconsumes⟩ := statement_ok hstatement
  exact ih p'.rest.length hconsumes.length_lt p' rfl

/-- **Reading all statements is reading one and then the others.** -/
theorem programFrom_eq (f : Fragment) (before : List Stmt) (r : Reader) (ls : List Lexeme) :
    programFrom f before r ls =
      match statementFrom f r ls with
      | (.ok (some s), p) => programFrom .start (s :: before) p.reader p.rest
      | (.ok none, p) =>
        (.ok before.reverse, ⟨p.rest, p.reader.note (.parsedProgram before.length)⟩)
      | (.error e, p) => (.error e, p) := by
  -- By induction on the lexemes. Within a statement both sides go on with the same reader.
  induction ls generalizing f r with
  | nil =>
    rw [programFrom, statementFrom]
    cases f.atEnd <;> rfl
  | cons l ls ih =>
    rw [programFrom, statementFrom]
    obtain ⟨verdict, r'⟩ := r.feed f l
    cases verdict with
    | more f' => exact ih f' r'
    | complete | reject | decline => rfl

/-- A call for all statements consumes some of the tokens. -/
theorem programFrom_consumed (p : Parser) (before : List Stmt) :
    ∃ n, p.Consumes n (programFrom .start before p.reader p.rest).2 := by
  -- By induction on the statements, each of which consumes what it consumes.
  induction p using Parser.induction generalizing before with
  | h p ih =>
  obtain ⟨n, hconsumes, -⟩ := p.statement_consumes
  rw [programFrom_eq, ← statement]
  cases hstatement : p.statement with | mk result p₁ =>
  rw [hstatement] at hconsumes
  match result with
  | .error e => exact ⟨n, hconsumes⟩
  | .ok none => exact ⟨n, hconsumes.rest, hconsumes.taken, hconsumes.le⟩
  | .ok (some s) =>
    obtain ⟨n', hconsumes'⟩ := ih s p₁ hstatement (s :: before)
    exact ⟨n + n', hconsumes.trans hconsumes'⟩

/-- **Each call consumes some of the tokens.** -/
theorem call_consumes (p : Parser) (c : Call) : ∃ n, p.Consumes n (p.call c).2 := by
  cases c with
  | hasNext =>
    -- A look ahead names a token and leaves it.
    obtain ⟨ls, r⟩ := p
    refine ⟨0, ?_, ?_, Nat.zero_le _⟩
    · cases ls <;> rfl
    · cases ls <;> rfl
  | statement =>
    obtain ⟨n, hconsumes, -⟩ := p.statement_consumes
    exact ⟨n, hconsumes⟩
  | program => exact p.programFrom_consumed []

/-- **A row of calls consumes some of the tokens**, from the first one on. -/
theorem calls_consume (p : Parser) (cs : List Call) : ∃ n, p.Consumes n (p.calls cs).2 := by
  -- By induction on the calls, where what they consume adds up.
  induction cs generalizing p with
  | nil => exact ⟨0, .refl p⟩
  | cons c cs ih =>
    obtain ⟨n, hcall⟩ := p.call_consumes c
    obtain ⟨n', hcalls⟩ := ih (p.call c).2
    exact ⟨n + n', hcall.trans hcalls⟩

end Parser

/-! ### Only the names matter -/

/-- **What a reader makes of a lexeme depends on the names alone.** -/
theorem Reader.feed_congr (h : r.names = r'.names) (f : Fragment) (l : Lexeme) :
    (r.feed f l).1 = (r'.feed f l).1 ∧ (r.feed f l).2.names = (r'.feed f l).2.names := by
  obtain ⟨hverdict, hnames⟩ := r.feed_eq f l
  obtain ⟨hverdict', hnames'⟩ := r'.feed_eq f l
  rw [hverdict, hverdict', hnames, hnames', h]
  exact ⟨rfl, rfl⟩

namespace Parser

/-- Two parsers with the same lexemes left and the same names. -/
structure Alike (p p' : Parser) : Prop where
  rest : p.rest = p'.rest
  names : p.names = p'.names

/-- **What a statement comes to depends on the names alone**, and so do the names afterwards. -/
theorem statementFrom_congr (h : r.names = r'.names) (f : Fragment) (ls : List Lexeme) :
    (statementFrom f r ls).1 = (statementFrom f r' ls).1 ∧
      (statementFrom f r ls).2.Alike (statementFrom f r' ls).2 := by
  -- By induction on the lexemes. One that asks to go on is followed with readers of the same names.
  induction ls generalizing f r r' with
  | nil =>
    rw [statementFrom, statementFrom]
    split <;> exact ⟨rfl, rfl, h⟩
  | cons l ls ih =>
    obtain ⟨hverdict, hnames⟩ := Reader.feed_congr h f l
    rw [statementFrom, statementFrom]
    generalize r.feed f l = fed at hverdict hnames ⊢
    generalize r'.feed f l = fed' at hverdict hnames ⊢
    obtain ⟨verdict, r₁⟩ := fed
    obtain ⟨_, r₁'⟩ := fed'
    -- The verdict is the same, so both go on or both stop here.
    obtain rfl := hverdict
    cases verdict with
    | more f' => exact ih hnames f'
    | complete | reject | decline => exact ⟨rfl, rfl, hnames⟩

/-- A call for the next statement. -/
theorem Alike.statement (h : p.Alike p') :
    p.statement.1 = p'.statement.1 ∧ p.statement.2.Alike p'.statement.2 := by
  obtain ⟨ls, r⟩ := p
  obtain ⟨ls', r'⟩ := p'
  obtain ⟨rfl, hnames⟩ := h
  exact statementFrom_congr hnames .start ls

/-- A call for all statements that are left. -/
theorem Alike.programFrom (h : p.Alike p') (before : List Stmt) :
    (programFrom .start before p.reader p.rest).1 =
        (programFrom .start before p'.reader p'.rest).1 ∧
      (programFrom .start before p.reader p.rest).2.Alike
        (programFrom .start before p'.reader p'.rest).2 := by
  -- By induction on the statements of the one parser. The other has the same ones.
  induction p using Parser.induction generalizing p' before with
  | h p ih =>
  obtain ⟨hresult, halike⟩ := h.statement
  rw [programFrom_eq, ← Parser.statement, programFrom_eq .start before p'.reader,
    ← Parser.statement]
  cases hstatement : p.statement with | mk result p₁ =>
  rw [hstatement] at hresult halike
  generalize p'.statement = reached at hresult halike ⊢
  obtain ⟨_, p₁'⟩ := reached
  obtain rfl := hresult
  match result with
  | .error e => exact ⟨rfl, halike⟩
  | .ok none => exact ⟨rfl, halike.rest, halike.names⟩
  | .ok (some s) => exact ih s p₁ hstatement halike (s :: before)

/-- **One call** has the same answer, and the parsers are alike afterwards. -/
theorem Alike.call (h : p.Alike p') (c : Call) :
    (p.call c).1 = (p'.call c).1 ∧ (p.call c).2.Alike (p'.call c).2 := by
  cases c with
  | hasNext =>
    obtain ⟨ls, r⟩ := p
    obtain ⟨ls', r'⟩ := p'
    obtain ⟨rfl, hnames⟩ := h
    cases ls with
    | nil => exact ⟨rfl, rfl, hnames⟩
    | cons l ls => exact ⟨rfl, rfl, congrArg (fun names => (l.token names).2) hnames⟩
  | statement =>
    obtain ⟨hresult, halike⟩ := h.statement
    exact ⟨congrArg Answer.statement hresult, halike⟩
  | program =>
    obtain ⟨hresult, halike⟩ := h.programFrom []
    exact ⟨congrArg Answer.program hresult, halike⟩

/-- **The answers depend on the lexemes that are left and on the names**, and on nothing else that a
parser keeps. -/
theorem Alike.calls (h : p.Alike p') (cs : List Call) : (p.calls cs).1 = (p'.calls cs).1 := by
  -- By induction on the calls, each of which leaves the parsers alike.
  induction cs generalizing p p' with
  | nil => rfl
  | cons c cs ih =>
    obtain ⟨hanswer, halike⟩ := h.call c
    rw [calls_cons, calls_cons, hanswer, ih halike]

/-! ### The last call -/

/-- **Calling for statements comes to an end.** After no more calls than there are tokens, the next
one answers that there is no statement, or it repeats the error of the one before it and consumes
nothing. -/
theorem exists_last_call (p : Parser) :
    ∃ k ≤ p.rest.length, ∃ answers p₁ answer p₂,
      p.calls (.replicate k .statement) = (answers, p₁) ∧ p₁.call .statement = (answer, p₂) ∧
      (answer = .statement (.ok none) ∨
        ∃ e, answer = .statement (.error e) ∧ answers.getLast? = some answer ∧
          p₂.reader.taken = p₁.reader.taken) := by
  -- By strong induction on how many lexemes are left.
  induction hlen : p.rest.length using Nat.strongRecOn generalizing p with
  | ind m ih =>
  subst hlen
  obtain ⟨n, hconsumes, hzero⟩ := p.statement_consumes
  rcases n with - | n
  · -- Nothing was consumed. Either there is nothing, or the second call says what the first did.
    obtain ⟨-, hnone⟩ | ⟨l, ls, hrest, hbegins⟩ := hzero rfl
    · refine ⟨0, Nat.zero_le _, [], p, .statement (.ok none), p.statement.2, rfl, ?_, .inl rfl⟩
      rw [← hnone]
      rfl
    · obtain ⟨rest, r⟩ := p
      obtain rfl : rest = l :: ls := hrest
      have hcall (r : Reader) : call ⟨l :: ls, r⟩ .statement =
          (.statement (.error (.unknownStatement l.text l.span)), ⟨l :: ls, r.look l⟩) := by
        rw [call_statement, statement_of_beginsNone hbegins]
      refine ⟨1, Nat.succ_le_succ (Nat.zero_le _), [_], _, _, _, ?_, hcall (r.look l),
        .inr ⟨_, rfl, rfl, rfl⟩⟩
      rw [List.replicate_one, calls_cons, hcall]
      rfl
  · -- Something was consumed, so fewer tokens are left to the calls that follow.
    have hlt := hconsumes.length_lt
    obtain ⟨k, hk, answers, p₁, answer, p₂, hcalls, hcall, hlast⟩ := ih _ hlt p.statement.2 rfl
    refine ⟨k + 1, Nat.lt_of_le_of_lt hk hlt, .statement p.statement.1 :: answers, p₁, answer, p₂,
      ?_, hcall, hlast.imp_right ?_⟩
    · rw [List.replicate_succ, calls_cons, call_statement, hcalls]
    · rintro ⟨e, herror, hrepeated, htaken⟩
      refine ⟨e, herror, ?_, htaken⟩
      rw [List.getLast?_cons, hrepeated]
      rfl

end Parser

end Silly
