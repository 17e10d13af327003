import Silly.Proofs.Descent.Progress

/-!
# A parser keeps nothing over an error

A parser by recursive descent is called again and again, in any order and whether or not the calls
before were errors. An error may come up inside any number of open blocks and in the middle of an
expression, with a token looked at or not. `Descent.BetweenCalls` says what is true of the parser
when the call has returned. No block is open, and whatever is asked next is answered as a parser
would that begins with the tokens that have not been consumed. Calling for statements makes progress
until there is none left, or until a token stays that begins no statement.

Between two calls the descent is where the parser that runs is (`Descent.Stands`), and as that parser
keeps nothing that is open, most of this is true of it at once. What is open in the descent, and the
lookahead, come right after every call because every function of the descent follows the parser that
runs (`Descend.next_eq`). A token that begins no statement is looked at by `hasNext` before anything
else, so it is the lookahead when the error comes up, and each further call comes to it first
(`Descent.calls_of_beginsNone`).
-/

namespace Silly

variable {d : Descent} {p : Parser} {t : Token} {e : ParseError}

namespace Descent

/-- **One call.** -/
def call (d : Descent) : Call → Option (Answer × Descent)
  | .hasNext =>
    let (more, d) := d.hasNext
    some (.more more, d)
  | .statement => do
    let (result, d) ← Descend.next d
    return (.statement result, d)
  | .program => do
    let (result, d) ← Descend.program d
    return (.program result, d)

/-- **A row of calls**, each of which finds the parser as the one before it has left it. -/
def calls (d : Descent) : List Call → Option (List Answer × Descent)
  | [] => some ([], d)
  | c :: cs => do
    let (answer, d) ← d.call c
    let (answers, d) ← d.calls cs
    return (answer :: answers, d)

/-- The tokens that have not been consumed. -/
def unread (source : String) (d : Descent) : List Lexeme := (lexemes source).drop d.reader.taken

/-! ### The parser that runs answers the same -/

/-- **Both parsers are at the same point**, and no call is under way. -/
structure Stands (d : Descent) (p : Parser) : Prop where
  left : d.Left p.rest
  reader : d.reader = p.reader
  depth : d.depth = 0

namespace Stands

/-- Both begin with the same lexemes and nothing else. -/
theorem ofLexemes (ls : List Lexeme) (names : Interner) :
    (ofLexemes ls names).Stands ⟨ls, .ofNames names⟩ :=
  ⟨rfl, rfl, rfl⟩

/-- Both begin at the start of a source. -/
theorem ofSource (source : String) (names : Interner) :
    (ofSource source names).Stands (.ofSource source names) :=
  .ofLexemes (lexemes source) names

/-- **Whether a token is left** is answered alike, and both have named the next token then. -/
theorem hasNext (h : d.Stands p) :
    d.hasNext.1 = p.hasNext.1 ∧ d.hasNext.2.Stands p.hasNext.2 := by
  obtain ⟨ls, r⟩ := p
  -- The reader is one and the same, so only the lexemes that are left matter.
  obtain ⟨hleft, rfl, hdepth⟩ := h
  cases ls with
  | nil =>
    rw [Descent.hasNext, hleft.peek_nil]
    exact ⟨rfl, hleft, rfl, hdepth⟩
  | cons l ls =>
    rw [Descent.hasNext, hleft.peek_cons]
    exact ⟨rfl, .of_look l ls _ _, rfl, hdepth⟩

/-- **A call for the next statement** has the same answer. -/
theorem next (h : d.Stands p) :
    ∃ d', Descend.next d = some (p.statement.1, d') ∧ d'.Stands p.statement.2 := by
  obtain ⟨ls, r⟩ := p
  obtain ⟨hleft, rfl, hdepth⟩ := h
  -- What the parser that runs does is the outcome that the descent follows.
  obtain ⟨result, d', ls', hnext, hleft', hdepth', hstatement⟩ := Descend.next_eq hleft hdepth
  refine ⟨d', ?_, ?_⟩
  · rw [Parser.statement, hstatement]
    exact hnext
  · rw [Parser.statement, hstatement]
    exact ⟨hleft', rfl, hdepth'⟩

/-- **A call for all statements that are left** has the same answer, whatever was read before. -/
theorem programFrom (h : d.Stands p) (before : List Stmt) :
    ∃ d', Descend.programFrom before d =
        some ((Parser.programFrom .start before p.reader p.rest).1, d') ∧
      d'.Stands (Parser.programFrom .start before p.reader p.rest).2 := by
  -- By induction on the statements that are left. After each of them both parsers stand together again.
  induction p using Parser.induction generalizing d before with
  | h p ih =>
  obtain ⟨d₁, hnext, hstands⟩ := h.next
  rw [Descend.programFrom, Parser.programFrom_eq, ← Parser.statement]
  cases hstatement : p.statement with | mk result p₁ =>
  rw [hstatement] at hnext hstands
  cases result with
  -- An error ends both readings at the place that the statement has left.
  | error e => exact ⟨d₁, Descend.run_bind_error hnext, hstands⟩
  | ok s? =>
    cases s? with
    | none =>
      -- There is no statement left, and both notes are the last thing in the log.
      refine ⟨{ d₁ with reader := d₁.reader.note (.parsedProgram before.length) }, ?_, ?_⟩
      · rw [Descend.run_bind hnext]
        rfl
      · exact ⟨hstands.left, congrArg (fun r : Reader => r.note _) hstands.reader, hstands.depth⟩
    | some s =>
      rw [Descend.run_bind hnext]
      exact ih s p₁ hstatement hstands (s :: before)

/-- A call for a whole program is one for all the statements, where none was read before. -/
theorem program (h : d.Stands p) :
    ∃ d', Descend.program d = some (p.program.1, d') ∧ d'.Stands p.program.2 :=
  h.programFrom []

/-- **One call** has the same answer, and leaves both parsers at the same point. -/
theorem call (h : d.Stands p) (c : Call) :
    ∃ d', d.call c = some ((p.call c).1, d') ∧ d'.Stands (p.call c).2 := by
  -- The descent also gives an answer in each case. It is never without a result.
  cases c with
  | hasNext =>
    obtain ⟨hmore, hstands⟩ := h.hasNext
    exact ⟨d.hasNext.2, congrArg (fun more => some (Answer.more more, _)) hmore, hstands⟩
  | statement =>
    obtain ⟨d', hnext, hstands⟩ := h.next
    refine ⟨d', ?_, hstands⟩
    rw [Descent.call, hnext]
    rfl
  | program =>
    obtain ⟨d', hprogram, hstands⟩ := h.program
    refine ⟨d', ?_, hstands⟩
    rw [Descent.call, hprogram]
    rfl

/-- **A row of calls** has the same answers. -/
theorem calls (h : d.Stands p) (cs : List Call) :
    ∃ d', d.calls cs = some ((p.calls cs).1, d') ∧ d'.Stands (p.calls cs).2 := by
  -- By induction on the calls. The second call finds both parsers where the first has left them.
  induction cs generalizing d p with
  | nil => exact ⟨d, rfl, h⟩
  | cons c cs ih =>
    obtain ⟨d₁, hcall, hstands₁⟩ := h.call c
    obtain ⟨d₂, hcalls, hstands₂⟩ := ih hstands₁
    refine ⟨d₂, ?_, hstands₂⟩
    rw [Descent.calls, hcall]
    simp only [Option.bind_eq_bind, Option.bind_some, hcalls]
    rfl

end Stands

end Descent

/-! ### An error that takes no token -/

namespace Descend

/-- **A token that begins no statement is an error**, which leaves it as the lookahead. -/
theorem statement_of_beginsNone (hpeek : d.peek = (some t, d)) (hbegins : t.kind.BeginsNone) :
    statement d = some (.error (.unknownStatement t.text t.span), d) := by
  rw [statement, Descend.peek, run_bind (run_modifyGet hpeek)]
  -- All kinds but two come to the last case of the function.
  dsimp only
  cases hkind : t.kind with
  | statement word => exact absurd hkind (hbegins.1 word)
  | identifier => exact absurd hkind hbegins.2
  | _ => rfl

/-- The same of a call for the next statement, which looks at the token before it reads one. -/
theorem next_of_beginsNone {d' : Descent} (hpeek : d.peek = (some t, d'))
    (hagain : d'.peek = (some t, d')) (hbegins : t.kind.BeginsNone) :
    next d = some (.error (.unknownStatement t.text t.span), d') := by
  have hhasNext : d.hasNext = (true, d') := by
    rw [Descent.hasNext, hpeek]
    rfl
  rw [next, run_bind (run_modifyGet hhasNext)]
  exact run_bind_error (statement_of_beginsNone hagain hbegins)

end Descend

/-- The answer to a call where each call for statements has the error `e`, as the next token is one
that begins none. -/
def Call.failing (e : ParseError) : Call → Answer
  | .hasNext => .more true
  | .statement => .statement (.error e)
  | .program => .program (.error e)

namespace Descent

theorem peek_of_lookahead (h : d.lookahead = some t) : d.peek = (some t, d) := by
  rw [peek, h]

/-- **Each further call fails in the same way**, and leaves the parser as it is. -/
theorem call_of_beginsNone (hlookahead : d.lookahead = some t) (hbegins : t.kind.BeginsNone)
    (c : Call) : d.call c = some (c.failing (.unknownStatement t.text t.span), d) := by
  have hpeek := peek_of_lookahead hlookahead
  -- Each kind of call comes to the same token first, as the lookahead is in its place.
  have hnext := Descend.next_of_beginsNone hpeek hpeek hbegins
  cases c with
  | hasNext =>
    rw [call, hasNext, hpeek]
    rfl
  | statement =>
    rw [call, hnext]
    rfl
  | program =>
    rw [call, Descend.program, Descend.programFrom, Descend.run_bind_error hnext]
    rfl

/-- **All further calls fail in the same way**, and the parser stays as it is. -/
theorem calls_of_beginsNone (hlookahead : d.lookahead = some t) (hbegins : t.kind.BeginsNone)
    (cs : List Call) :
    d.calls cs = some (cs.map (·.failing (.unknownStatement t.text t.span)), d) := by
  -- By induction on the calls. As the first one changes nothing, the others find what it has found.
  induction cs with
  | nil => rfl
  | cons c cs ih =>
    rw [calls, call_of_beginsNone hlookahead hbegins]
    simp only [Option.bind_eq_bind, Option.bind_some, ih]
    rfl

/-! ### Between two calls -/

/-- **Calling for statements may stop** after `k` calls and one more. The last call answers that
there is no statement, or it repeats the error of the call before it and consumes nothing. -/
def Stops (d : Descent) (k : Nat) : Prop :=
  ∃ answers d₁ answer d₂,
    d.calls (.replicate k .statement) = some (answers, d₁) ∧
    d₁.call .statement = some (answer, d₂) ∧
    (answer = .statement (.ok none) ∨
      ∃ e, answer = .statement (.error e) ∧ answers.getLast? = some answer ∧
        d₂.reader.taken = d₁.reader.taken)

/-- **What is true of a parser between two calls**, whatever errors there have been. -/
structure BetweenCalls (source : String) (d : Descent) : Prop where
  /-- No block is open. -/
  closed : d.depth = 0
  /-- The lookahead is the first of the tokens that have not been consumed, if there is one, and the
  others have not been scanned. -/
  left : d.Left (d.unread source)
  /-- All calls are answered as they are by a parser that begins with the tokens that have not been
  consumed. -/
  fresh : ∀ cs, (d.calls cs).map (·.1) =
    ((ofLexemes (d.unread source) d.reader.names).calls cs).map (·.1)
  /-- A statement takes at least one token. -/
  consumes : ∀ s d', d.call .statement = some (.statement (.ok (some s)), d') →
    d.reader.taken < d'.reader.taken
  /-- An error that takes no token is about the lookahead, which begins no statement, and all calls
  after it fail in the same way. -/
  stuck : ∀ e d', d.call .statement = some (.statement (.error e), d') →
    d'.reader.taken = d.reader.taken →
    ∃ t, d'.lookahead = some t ∧ e = .unknownStatement t.text t.span ∧
      ∀ cs, d'.calls cs = some (cs.map (·.failing e), d')
  /-- Calling for statements comes to an end after at most one call more than there are tokens. -/
  stops : ∃ k ≤ (d.unread source).length, d.Stops k

namespace Stands

/-- **All calls are answered as by a fresh parser** that begins with the lexemes that are left. -/
theorem fresh (h : d.Stands p) (cs : List Call) :
    (d.calls cs).map (·.1) = ((Descent.ofLexemes p.rest d.reader.names).calls cs).map (·.1) := by
  obtain ⟨d₁, hcalls, -⟩ := h.calls cs
  obtain ⟨d₂, hcalls', -⟩ := (ofLexemes p.rest d.reader.names).calls cs
  -- The two parsers differ in their logs and in how much they have consumed, which no answer tells.
  have halike : p.Alike ⟨p.rest, .ofNames d.reader.names⟩ := by
    refine ⟨rfl, ?_⟩
    rw [h.reader]
    rfl
  rw [hcalls, hcalls', halike.calls cs]
  rfl

/-- What one call has answered is what the parser that runs answers. -/
theorem of_call (h : d.Stands p) {c : Call} {answer : Answer} {d' : Descent}
    (hcall : d.call c = some (answer, d')) :
    (p.call c).1 = answer ∧ d'.Stands (p.call c).2 := by
  -- A call has one result, so the one that is given is the one that is known to exist.
  obtain ⟨d₁, hcall₁, hstands⟩ := h.call c
  obtain ⟨hanswer, rfl⟩ := Prod.mk.inj (Option.some.inj (hcall₁.symm.trans hcall))
  exact ⟨hanswer, hstands⟩

/-- **A statement takes at least one token.** -/
theorem consumes (h : d.Stands p) {s : Stmt} {d' : Descent}
    (hcall : d.call .statement = some (.statement (.ok (some s)), d')) :
    d.reader.taken < d'.reader.taken := by
  obtain ⟨hanswer, hstands⟩ := h.of_call hcall
  have hstatement : p.statement = (.ok (some s), p.statement.2) :=
    Prod.ext (Answer.statement.inj hanswer) rfl
  -- It is so of the parser that runs, and both keep the same reader.
  obtain ⟨n, hconsumes⟩ := Parser.statement_ok hstatement
  have htaken : d'.reader.taken = d.reader.taken + (n + 1) := by
    rw [hstands.reader, h.reader]
    exact hconsumes.taken
  omega

/-- **An error that takes no token is about a token that begins no statement**, which is looked at then.
-/
theorem stuck (h : d.Stands p) {d' : Descent}
    (hcall : d.call .statement = some (.statement (.error e), d'))
    (htaken : d'.reader.taken = d.reader.taken) :
    ∃ t, d'.lookahead = some t ∧ t.kind.BeginsNone ∧ e = .unknownStatement t.text t.span := by
  obtain ⟨hanswer, hstands⟩ := h.of_call hcall
  obtain ⟨n, hconsumes, hzero⟩ := p.statement_consumes
  -- The number of tokens consumed is that of the parser that runs.
  have hn : n = 0 := by
    have hsame : p.statement.2.reader.taken = p.reader.taken := by
      rw [← h.reader, ← htaken, hstands.reader]
      rfl
    have htaken' := hconsumes.taken
    omega
  -- Nothing was consumed, so there was no token, which is no error, or one that begins no statement.
  obtain ⟨-, hnone⟩ | ⟨l, ls, hrest, hbegins⟩ := hzero hn
  · rw [Parser.call_statement, hnone] at hanswer
    cases hanswer
  · have hleft := h.left
    rw [hrest] at hleft
    have hnext := Descend.next_of_beginsNone hleft.peek_cons (peek_of_lookahead rfl) hbegins
    rw [Descent.call, hnext] at hcall
    obtain ⟨herror, rfl⟩ := Prod.mk.inj (Option.some.inj hcall)
    exact ⟨_, rfl, hbegins, (Except.error.inj (Answer.statement.inj herror)).symm⟩

/-- **Calling for statements comes to an end**, as it does for the parser that runs. -/
theorem stops (h : d.Stands p) : ∃ k ≤ p.rest.length, d.Stops k := by
  obtain ⟨k, hk, answers, p₁, answer, p₂, hcalls, hcall, hlast⟩ := p.exists_last_call
  -- The same calls of the descent stand beside those of the parser that runs, up to the last one.
  obtain ⟨d₁, hcalls', hstands₁⟩ := h.calls (.replicate k .statement)
  rw [hcalls] at hcalls' hstands₁
  obtain ⟨d₂, hcall', hstands₂⟩ := hstands₁.call .statement
  rw [hcall] at hcall' hstands₂
  refine ⟨k, hk, answers, d₁, answer, d₂, hcalls', hcall', ?_⟩
  rw [hstands₁.reader, hstands₂.reader]
  exact hlast

end Stands

end Descent

/-- **A parser keeps nothing over an error.** Each row of calls is answered, and with the answers of
the parser that runs. Afterwards no block is open, all further calls are answered as by a parser that
begins with the tokens that have not been consumed, and so on (`Descent.BetweenCalls`), whatever
errors there have been. -/
theorem parser_keeps_nothing (source : String) (names : Interner) (cs : List Call) :
    ∃ answers d, (Descent.ofSource source names).calls cs = some (answers, d) ∧
      (Parser.ofSource source names).calls cs = (answers, ⟨d.unread source, d.reader⟩) ∧
      d.BetweenCalls source := by
  -- The descent answers as the parser that runs, which has consumed some `n` of the tokens.
  obtain ⟨d, hcalls, hstands⟩ := (Descent.Stands.ofLexemes (lexemes source) names).calls cs
  obtain ⟨n, hconsumes⟩ := (Parser.ofSource source names).calls_consume cs
  -- Both have counted the same tokens, so what is left to the one is what the other has not consumed.
  have hrest : ((Parser.ofSource source names).calls cs).2.rest = d.unread source := by
    have htaken : d.reader.taken = n := by
      rw [hstands.reader]
      exact hconsumes.taken.trans (Nat.zero_add n)
    rw [Descent.unread, htaken]
    exact hconsumes.rest
  refine ⟨_, d, hcalls, ?_, ?_⟩
  · rw [← hrest, hstands.reader]
    rfl
  -- With both parsers at the same point, each part has been shown of parsers that stand so.
  · exact {
      closed := hstands.depth
      left := hrest ▸ hstands.left
      fresh := hrest ▸ hstands.fresh
      consumes := fun s d' hcall => hstands.consumes hcall
      stuck := by
        intro e d' hcall htaken
        obtain ⟨t, hlookahead, hbegins, rfl⟩ := hstands.stuck hcall htaken
        exact ⟨t, hlookahead, rfl, Descent.calls_of_beginsNone hlookahead hbegins⟩
      stops := hrest ▸ hstands.stops }

example :
    ((Parser.ofSource "exit break )" .initial).calls
      [.statement, .statement, .hasNext, .statement, .program]).1 =
      [.statement (.ok (some .exit)), .statement (.ok (some .breakLoop)), .more true,
        .statement (.error (.unknownStatement ")" ⟨11, 12⟩)),
        .program (.error (.unknownStatement ")" ⟨11, 12⟩))] := by
  rfl

end Silly
