import Silly.Proofs.Display.Canonical
import Silly.Proofs.Grammar.Viable

/-!
# Only the texts of the tokens matter

Two sources may differ in their blanks and in their lines, and so in the places of their tokens. If the
texts of their tokens are the same, they are read into the same tree with the same numbers for its names,
or both are refused with errors that differ in the place that they name, and the tables of names agree.
Run, they do the same (`layout_is_free`).

What a reader knows holds places in a few spots only: in the token at hand, in the first tokens of the
statements that are open, in an error, and in the log. Each of these can do without: its place is taken
away, and some fixed one is put there (`Fragment.unplaced`, `Turn.unplaced`). A step does not look at any
place, so it does not matter whether the places are taken away before or after it
(`Fragment.unplaced_step`), and nor does it for a whole reading (`Parser.unplaced_programFrom`). Without
their places the lexemes of the two sources are the same.
-/

namespace Silly

/-! ### Without places -/

/-- The lexeme without its place. -/
def Lexeme.unplaced (l : Lexeme) : Lexeme := ⟨l.text, 0, 0⟩

/-- The token without its place. -/
def Token.unplaced (t : Token) : Token := { t with span := .dummy }

/-- The error without the place that it names. -/
def ParseError.unplaced (e : ParseError) : ParseError := e.movedTo .dummy

/-- The first token of a statement without its place. -/
def Opening.unplaced (o : Opening) : Opening := ⟨o.text, 0⟩

/-- The open block without the place of its statement. -/
def OpenBlock.unplaced (b : OpenBlock) : OpenBlock := { b with opening := b.opening.unplaced }

/-- Where the reader stands in the grammar, but not in the source. -/
def Phase.unplaced : Phase → Phase
  | .between => .between
  | .within o need => .within o.unplaced need

/-- **The partly read statement without the places** of those that are open. -/
def Fragment.unplaced (p : Fragment) : Fragment :=
  ⟨p.phase.unplaced, p.blocks.map OpenBlock.unplaced⟩

/-- The event without its place. -/
def Event.unplaced : Event → Event
  | .advance pos kind _ => .advance pos kind .dummy
  | .parsedStatement text _ => .parsedStatement text 0
  | e => e

/-- The verdict without places. -/
def Verdict.unplaced : Verdict → Verdict
  | .more p => .more p.unplaced
  | .complete s => .complete s
  | .reject e => .reject e.unplaced
  | .decline e => .decline e.unplaced

/-- **The outcome of reading one token, without places.** -/
def Turn.unplaced (turn : Turn) : Turn :=
  ⟨turn.names, turn.verdict.unplaced, turn.events.map Event.unplaced⟩

/-- What is kept of the tokens that were read, without places. -/
def Reader.unplaced (r : Reader) : Reader := { r with log := r.log.map Event.unplaced }

/-- The parser without places. -/
def Parser.unplaced (p : Parser) : Parser := ⟨p.rest.map Lexeme.unplaced, p.reader.unplaced⟩

/-! ### A step looks at no place -/

section Step

variable (names : Interner) {o : Opening} {hole : StmtHole} {blocks : List OpenBlock}
  {around : List ExprHole} {e : Expr} {s : Stmt} {t : Token}

@[simp] theorem Token.unplaced_kind : t.unplaced.kind = t.kind := rfl

@[simp] theorem Token.unplaced_text : t.unplaced.text = t.text := rfl

@[simp] theorem Token.unplaced_name : t.unplaced.name = t.name := rfl

@[simp] theorem Token.unplaced_contents : t.unplaced.contents = t.contents := rfl

/-- A finished statement is noted with the place of its first token, and there is none. -/
theorem Turn.unplaced_finish :
    (finish names o s blocks).unplaced =
      finish names o.unplaced s (blocks.map OpenBlock.unplaced) := by
  cases blocks <;> rfl

/-- An expression is delivered without a look at places. -/
theorem unplaced_deliver :
    (deliver names o hole blocks e around).unplaced =
      deliver names o.unplaced hole (blocks.map OpenBlock.unplaced) e around := by
  cases around with
  | nil =>
    simp only [deliver]
    split
    · exact Turn.unplaced_finish names
    · rfl
  | cons h around => cases h <;> rfl

/-- A token where an expression is needed. -/
theorem unplaced_stepExpression :
    (stepExpression names o hole blocks around t).unplaced =
      stepExpression names o.unplaced hole (blocks.map OpenBlock.unplaced) around t.unplaced := by
  simp only [stepExpression, Token.unplaced_kind, Token.unplaced_text, Token.unplaced_name,
    Token.unplaced_contents]
  split
  case h_5 =>
    -- An integer that is out of range is an error that names a place.
    split
    · exact unplaced_deliver names
    · rfl
  all_goals first | rfl | exact unplaced_deliver _

/-- A choice by the kind of the token is the same choice without its place. -/
theorem unplaced_ite {kind : TokenKind} {x x' y y' : Turn} (hx : x.unplaced = x')
    (hy : y.unplaced = y') :
    (if t.kind = kind then x else y).unplaced = if t.unplaced.kind = kind then x' else y' := by
  by_cases hk : t.kind = kind
  · have hk' : t.unplaced.kind = kind := hk
    rw [if_pos hk, if_pos hk', hx]
  · have hk' : ¬ t.unplaced.kind = kind := hk
    rw [if_neg hk, if_neg hk', hy]

/-- **A token inside of a statement.** -/
theorem unplaced_stepWithin (need : Need) :
    (stepWithin names o blocks t need).unplaced =
      stepWithin names o.unplaced (blocks.map OpenBlock.unplaced) t.unplaced need := by
  -- What is asked of the token is its kind, and both answers are the same but for places.
  cases need with
  | name use =>
    cases use with
    | declare | sub => exact unplaced_ite rfl rfl
    | call => exact unplaced_ite (Turn.unplaced_finish names) rfl
  | gets hole => exact unplaced_ite rfl rfl
  | expression hole around => exact unplaced_stepExpression names
  | operator hole around left =>
    simp only [stepWithin, Token.unplaced_kind]
    split
    · rfl
    · rfl
  | closing hole around e => exact unplaced_ite (unplaced_deliver names) rfl
  | word header => exact unplaced_ite rfl rfl

/-- The end of a block. -/
theorem unplaced_closeBlock (b : OpenBlock) (k : Keyword) :
    (closeBlock names b blocks k).unplaced =
      closeBlock names b.unplaced (blocks.map OpenBlock.unplaced) k := by
  obtain ⟨opening, hole, before⟩ := b
  cases hole with
  | after header =>
    cases header with
    | branch branches cond => cases k <;> first | rfl | exact Turn.unplaced_finish names
    | whileDo | repeatTimes => exact Turn.unplaced_finish names
  | otherwise | sub => exact Turn.unplaced_finish names

/-- The first word of a statement. -/
theorem unplaced_beginStatement (k : StatementKeyword) :
    (beginStatement names blocks t k).unplaced =
      beginStatement names (blocks.map OpenBlock.unplaced) t.unplaced k := by
  cases k with
  | sub => cases blocks <;> rfl
  | exit | «break» => exact Turn.unplaced_finish names
  | _ => rfl

/-- **A token between statements.** -/
theorem unplaced_stepBetween :
    (stepBetween names blocks t).unplaced =
      stepBetween names (blocks.map OpenBlock.unplaced) t.unplaced := by
  simp only [stepBetween, Token.unplaced_kind]
  split
  · exact unplaced_beginStatement names _
  · rfl
  -- Whether a keyword ends the block is told by the construct that has the block.
  · cases blocks with
    | nil => rfl
    | cons b bs =>
      simp only [List.map_cons]
      rw [show b.unplaced.hole = b.hole from rfl]
      split
      · exact unplaced_closeBlock names b _
      · rfl
  · rfl

/-- **A step looks at no place.** -/
theorem Fragment.unplaced_step (p : Fragment) (t : Token) :
    (p.step names t).unplaced = p.unplaced.step names t.unplaced := by
  obtain ⟨phase, blocks⟩ := p
  cases phase with
  | between => exact unplaced_stepBetween names
  | within o need => exact unplaced_stepWithin names need

/-- Neither does the end of a source. -/
theorem Fragment.unplaced_atEnd (p : Fragment) :
    p.unplaced.atEnd = p.atEnd.map ParseError.unplaced := by
  obtain ⟨phase, blocks⟩ := p
  cases phase with
  | between => cases blocks <;> rfl
  | within o need => rfl

end Step

/-! ### Nor does a reading -/

/-- Without its place, a lexeme is a token without its place, of the same name. -/
theorem Lexeme.token_unplaced (l : Lexeme) (names : Interner) :
    l.unplaced.token names = ((l.token names).1.unplaced, (l.token names).2) := rfl

/-- **One lexeme read.** -/
theorem Reader.unplaced_feed (r : Reader) (p : Fragment) (l : Lexeme) :
    r.unplaced.feed p.unplaced l.unplaced =
      ((r.feed p l).1.unplaced, (r.feed p l).2.unplaced) := by
  have hstep := p.unplaced_step (l.token r.names).2 (l.token r.names).1
  simp only [Reader.feed]
  rw [show r.unplaced.names = r.names from rfl, l.token_unplaced, ← hstep]
  generalize p.step (l.token r.names).2 (l.token r.names).1 = turn
  obtain ⟨names, verdict, events⟩ := turn
  -- A token that is consumed puts its own event before those of what it completes.
  let taking : Event := .advance r.taken (l.token r.names).1.kind (l.token r.names).1.span
  have hlog : (events.map Event.unplaced).reverse ++ taking.unplaced :: r.log.map Event.unplaced =
      (events.reverse ++ taking :: r.log).map Event.unplaced := by
    rw [List.map_append, List.map_reverse, List.map_cons]
  cases verdict with
  | decline e => rfl
  | more p' => exact Prod.ext rfl (congrArg (Reader.mk names (r.taken + 1)) hlog)
  | complete s => exact Prod.ext rfl (congrArg (Reader.mk names (r.taken + 1)) hlog)
  | reject e => exact Prod.ext rfl (congrArg (Reader.mk names (r.taken + 1)) hlog)

/-- **A reading looks at no place.** -/
theorem Parser.unplaced_programFrom (p : Fragment) (before : List Stmt) (r : Reader)
    (ls : List Lexeme) :
    programFrom p.unplaced before r.unplaced (ls.map Lexeme.unplaced) =
      ((programFrom p before r ls).1.mapError ParseError.unplaced,
        (programFrom p before r ls).2.unplaced) := by
  -- By induction on the lexemes. Without places both readings come to the same verdict.
  induction ls generalizing p before r with
  | nil =>
    simp only [List.map_nil, programFrom, p.unplaced_atEnd]
    cases p.atEnd with
    | none => rfl
    | some e => rfl
  | cons l ls ih =>
    simp only [List.map_cons, programFrom, r.unplaced_feed p l]
    obtain ⟨verdict, r'⟩ := r.feed p l
    cases verdict with
    | more p' => exact ih p' before r'
    | complete s => exact ih .start (s :: before) r'
    | reject e => rfl
    | decline e => rfl

/-! ### Sources -/

section Sources

variable {a b : String} {names : Interner} {p : Program} {e e' : ParseError}

/-- **Two sources with the same texts** are read alike but for places. -/
theorem parse_of_texts (h : (lexemes a).map (·.text) = (lexemes b).map (·.text))
    (names : Interner) :
    (parse a names).1.mapError ParseError.unplaced =
        (parse b names).1.mapError ParseError.unplaced ∧
      (parse a names).2 = (parse b names).2 := by
  have hunplaced (source : String) : (lexemes source).map Lexeme.unplaced =
      ((lexemes source).map (·.text)).map fun text => ⟨text, 0, 0⟩ := by
    rw [List.map_map]
    rfl
  have hlexemes : (lexemes a).map Lexeme.unplaced = (lexemes b).map Lexeme.unplaced := by
    rw [hunplaced, hunplaced, h]
  -- Without places the two sources are one row of lexemes, and both readings are that of this row.
  have ha := Parser.unplaced_programFrom .start [] (.ofNames names) (lexemes a)
  have hb := Parser.unplaced_programFrom .start [] (.ofNames names) (lexemes b)
  rw [hlexemes, hb] at ha
  obtain ⟨hresult, hparser⟩ := Prod.mk.inj ha
  exact ⟨hresult.symm, congrArg (·.reader.names) hparser.symm⟩

/-- An error that is moved is the same without its place. -/
theorem ParseError.unplaced_movedTo (e : ParseError) (span : Span) :
    (e.movedTo span).unplaced = e.unplaced := by
  cases e <;> rfl

/-- Errors that are the same without their places differ in them only. -/
theorem ParseError.exists_movedTo (h : e.unplaced = e'.unplaced) : ∃ span, e' = e.movedTo span := by
  refine ⟨e'.span?.getD .dummy, ?_⟩
  cases e <;> cases e' <;> cases h <;> rfl

/-- Results that are the same without places. -/
theorem cases_of_mapError {r r' : Except ParseError Program}
    (h : r.mapError ParseError.unplaced = r'.mapError ParseError.unplaced) :
    (∃ p, r = .ok p ∧ r' = .ok p) ∨
      ∃ e span, r = .error e ∧ r' = .error (e.movedTo span) := by
  -- An error and a program are told apart without places as well.
  obtain e | p := r
  · obtain e' | p' := r'
    · obtain ⟨span, rfl⟩ := ParseError.exists_movedTo (Except.error.inj h)
      exact .inr ⟨e, span, rfl, rfl⟩
    · cases h
  · obtain e' | p' := r'
    · cases h
    · cases h
      exact .inl ⟨p, rfl, rfl⟩

/-- A source that cannot be read is not run. -/
theorem load_of_parse_error (h : (parse a .initial).1 = .error e) (options : Options)
    (printer : Printer) : ∃ log, load a options printer = (.error e, log) := by
  have hparse : (parse a .initial).1 = (Parser.ofSource a .initial).program.1 := rfl
  rw [hparse] at h
  unfold load
  -- The log is kept of a reading that fails, and it is all that is left of it.
  revert h
  obtain ⟨result, parser⟩ := (Parser.ofSource a .initial).program
  rintro ⟨⟩
  exact ⟨_, rfl⟩

/-- The failure without the place that it names. -/
def Failure.unplaced : Failure → Failure
  | .parse e => .parse e.unplaced
  | failure => failure

/-- What is seen of a report, but for the place of a syntax error. -/
def Report.seenUnplaced (r : Report) : Except Failure Status × Printer :=
  (r.result.mapError Failure.unplaced, r.printer)

end Sources

/-- **Only the sequence of the tokens' texts matters.** Let two sources have tokens with the same texts in
the same order, in whatever places. Read with the same names, they give the same tree, or they are refused
with errors that differ in nothing but the place that they name, and they leave the same names. Run, they
end in equally many steps if they end, with the same status or failure but for the place of a syntax error,
and have printed the same at every point. -/
theorem layout_is_free {a b : String}
    (h : (tokenize a .initial).1.map (·.text) = (tokenize b .initial).1.map (·.text)) :
    (∀ names, (parse a names).2 = (parse b names).2 ∧
      ((∃ p, (parse a names).1 = .ok p ∧ (parse b names).1 = .ok p) ∨
        ∃ e span, (parse a names).1 = .error e ∧ (parse b names).1 = .error (e.movedTo span))) ∧
    (∀ options printer fuel,
      (runSource fuel b options printer).map Report.seenUnplaced =
        (runSource fuel a options printer).map Report.seenUnplaced) ∧
    ∀ options printer loaded loaded' log log', load a options printer = (.ok loaded, log) →
      load b options printer = (.ok loaded', log') →
        ∀ fuel, (loaded'.config.run loaded'.names fuel).machine.printer =
          (loaded.config.run loaded.names fuel).machine.printer := by
  rw [texts_tokenize, texts_tokenize] at h
  have hparse (names : Interner) := parse_of_texts h names
  -- A source that is read gives the other one's tree with its names, and the logs are all that differs.
  have hruns {p : Program} {names : Interner} (hp : parse a .initial = (.ok p, names))
      (maxCalls : Nat) (printer : Printer) (log log' : List Event) (fuel : Nat) :=
    ((Machine.alike_initial names names printer printer maxCalls log log').load ⟨rfl, rfl⟩
      (alike_self_of_parse hp)).run fuel
  have hboth {p : Program} (hp : (parse a .initial).1 = .ok p)
      (hp' : (parse b .initial).1 = .ok p) :
      ∃ names, parse a .initial = (.ok p, names) ∧ parse b .initial = (.ok p, names) :=
    ⟨_, parse_eq_of_ok hp, Prod.ext hp' (hparse .initial).2.symm⟩
  refine ⟨fun names => ⟨(hparse names).2, cases_of_mapError (hparse names).1⟩,
    fun options printer fuel => ?_, fun options printer loaded loaded' log log' hload hload' fuel => ?_⟩
  -- Both sources are programs with the same tree, or both are refused.
  · obtain ⟨p, hp, hp'⟩ | ⟨e, span, he, he'⟩ := cases_of_mapError (hparse .initial).1
    · obtain ⟨names, ha, hb⟩ := hboth hp hp'
      obtain ⟨log, hload⟩ := load_of_parse ha options printer
      obtain ⟨log', hload'⟩ := load_of_parse hb options printer
      have hseen : (runSource fuel b options printer).map Report.seen =
          (runSource fuel a options printer).map Report.seen := by
        rw [seen_runSource hload, seen_runSource hload']
        exact (hruns ha options.maxCalls printer log log' fuel).seen_eq rfl
      have hunplaced (r : Option Report) : r.map Report.seenUnplaced =
          (r.map Report.seen).map fun seen => (seen.1.mapError Failure.unplaced, seen.2) := by
        rw [Option.map_map]
        rfl
      rw [hunplaced, hunplaced, hseen]
    -- No run is begun, and the report has the error in it.
    · obtain ⟨log, hload⟩ := load_of_parse_error he options printer
      obtain ⟨log', hload'⟩ := load_of_parse_error he' options printer
      simp only [runSource, hload, hload', Option.map_some, Report.seenUnplaced, Report.unread,
        Except.mapError, Failure.unplaced, ParseError.unplaced_movedTo]
  -- What is loaded is the machine for the tree, and the two machines are alike.
  · obtain ⟨p, hp, hconfig⟩ := exists_of_load hload
    obtain ⟨p', hp', hconfig'⟩ := exists_of_load hload'
    have hnames : loaded.names = loaded'.names := by
      have hsame := (hparse .initial).2
      rwa [hp, hp'] at hsame
    obtain rfl : p = p' := by
      have hsame := (hparse .initial).1
      rw [hp, hp'] at hsame
      exact Except.ok.inj hsame
    rw [hconfig, hconfig', ← hnames]
    exact (hruns hp options.maxCalls printer log log' fuel).printer_eq rfl

/-- A source on one line and the same on several, with a division that fails. A source that is no program,
and the same further in. -/
theorem layout_is_free_lines :
    let a := "var x gets 1 print x print (x / 0)"
    let b := "var x gets 1\n\n  print x\nprint(x / 0 )\n"
    let c := "print 1 var 2"
    let d := "print 1\n  var 2"
    (∃ p, (parse a .initial).1 = .ok p ∧ (parse b .initial).1 = .ok p) ∧
      (∀ fuel, (runSource fuel b .default (.buffer "")).map Report.seenUnplaced =
        (runSource fuel a .default (.buffer "")).map Report.seenUnplaced) ∧
      ∃ span, (parse c .initial).1 = .error (.unexpectedToken "2" .identifier ⟨12, 13⟩) ∧
        (parse d .initial).1 = .error (.unexpectedToken "2" .identifier span) := by
  intro a b c d
  have hab : (tokenize a .initial).1.map (·.text) = (tokenize b .initial).1.map (·.text) := by
    decide +kernel
  have hcd : (tokenize c .initial).1.map (·.text) = (tokenize d .initial).1.map (·.text) := by
    decide +kernel
  have ha : (parse a .initial).1.isOk = true := by decide +kernel
  have hc : (match (parse c .initial).1 with
      | .ok _ => none
      | .error e => some e) = some (.unexpectedToken "2" .identifier ⟨12, 13⟩) := by decide +kernel
  clear_value a b c d
  refine ⟨?_, (layout_is_free hab).2.1 .default (.buffer ""), ?_⟩
  · obtain hread | ⟨e, span, he, -⟩ := ((layout_is_free hab).1 .initial).2
    · exact hread
    · rw [he] at ha
      cases ha
  · obtain ⟨p, hp, -⟩ | ⟨e, span, he, he'⟩ := ((layout_is_free hcd).1 .initial).2
    · rw [hp] at hc
      cases hc
    · rw [he] at hc
      obtain rfl := Option.some.inj hc
      exact ⟨span, he, he'⟩

end Silly
