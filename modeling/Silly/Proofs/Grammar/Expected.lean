import Silly.Proofs.Descent.Calls
import Silly.Proofs.Grammar.Stops

/-!
# What is expected could stand there

An error says what was expected in the place of a token or of the end of the source. It is chosen in a
dozen places of the parser. All of them name what is due at that point (`Goal.expected`), with one
exception: the items of a list are due together with the bracket that closes it, and before a token it
is an expression that is missed, at the end of the source the bracket (`Goal.expects_of_refused`).

So what is said is true if each goal can be met as its expectation says. Each thing that an expectation
names is a class of tokens (`Expected.Admits`), and a token of such a class is never refused where the
goal is due (`Goal.exists_advance_of_admits`). What was read up to there, with that token after it, is
then the beginning of a program, as whatever is due can be met.

No goal is met by a statement. So a statement is never what an error says was expected, whoever asks
for statements and in which order (`Parser.expected_ne_statement`).
-/

namespace Silly

/-- What an error says was expected. -/
def ParseError.expected? : ParseError → Option Expected
  | unexpectedToken _ x _ | unexpectedEnd x => some x
  | _ => none

/-- The error in an answer. -/
def Answer.error? : Answer → Option ParseError
  | more _ | statement (.ok _) | program (.ok _) => none
  | statement (.error e) | program (.error e) => some e

namespace Expected

/-- **The things that an expectation names.** Each keyword of a choice is one of them. -/
def things : Expected → List Expected
  | keywords ks => ks.map fun k => keywords [k]
  | x => [x]

/-- **The tokens that are such a thing.** For a statement and an expression they are those that begin
one. -/
def Admits (t : Token) : Expected → Prop
  | statement => ∃ name us s, DerivesTop name (t :: us) s
  | expression => ∃ name us e, DerivesExpr name (t :: us) e
  | binaryOperator => ∃ op, t.kind = .binary op
  | identifier => t.kind = .identifier
  | delimiter d => t.kind = .delimiter d
  | keywords ks => ∃ k ∈ ks, t.kind = .keyword k

/-- **What is expected could stand after the tokens `ts`.** -/
structure CanFollow (x : Expected) (ts : List Token) : Prop where
  /-- The message names these things. -/
  text : x.text = choice (x.things.map text)
  /-- There is something that is expected. -/
  things_ne_nil : x.things ≠ []
  /-- There are tokens that are the thing. -/
  occurs : ∀ y ∈ x.things, ∃ source names, ∃ t ∈ (tokenize source names).1, y.Admits t
  /-- Each token that is the thing could stand there. -/
  viable : ∀ y ∈ x.things, ∀ source names, ∀ t ∈ (tokenize source names).1, y.Admits t →
    Viable ((ts ++ [t]).map (·.text))

end Expected

variable {names : Interner} {t : Token} {gs : List Goal} {g : Goal} {e : ParseError}
  {x y : Expected} {source : String} {ts : List Token}

/-! ### What is due and what is expected -/

namespace Goal

/-- **What may be expected where the goal is due.** -/
def Expects (g : Goal) (x : Expected) : Prop := x = g.expected ∨ g = items ∧ x = .expression

variable {found : String} {span : Span}

theorem eq_of_unexpected (h : unexpected t y = .error (.unexpectedToken found x span)) : x = y := by
  cases h
  rfl

/-- Where an expression may begin, an expression is what is missed. -/
theorem eq_of_advanceExpression
    (h : advanceExpression gs t = .error (.unexpectedToken found x span)) : x = .expression := by
  unfold advanceExpression at h
  split at h
  -- An integer is in range or it is out of range, and neither is about what is expected.
  case h_6 => split at h <;> cases h
  case h_7 => exact eq_of_unexpected h
  all_goals cases h

/-- A token that begins no statement is not said to be unexpected. -/
theorem advanceStatement_ne_unexpected :
    advanceStatement gs t ≠ .error (.unexpectedToken found x span) := by
  intro h
  unfold advanceStatement at h
  split at h
  · cases h
  · split at h
    case h_6 => split at h <;> cases h
    all_goals cases h
  · cases h

/-- **A token that is not what was expected** is refused where something is due that is met by what
was expected. -/
theorem expects_of_refused (h : advance t gs = .error (.unexpectedToken found x span)) :
    ∃ g gs', gs = g :: gs' ∧ g.Expects x := by
  cases gs with
  | nil => exact absurd h advanceStatement_ne_unexpected
  | cons g gs =>
    refine ⟨g, gs, rfl, ?_⟩
    -- By what is due first. Each goal has its own error, and that of an operation and of items is one
    -- of an expression.
    cases g with
    | expression => exact .inl (eq_of_advanceExpression h)
    | name | keyword | closeParen | operator =>
      simp only [advance] at h
      split at h
      · cases h
      · exact .inl (eq_of_unexpected h)
    | operation =>
      simp only [advance] at h
      split at h
      · cases h
      · exact .inl (eq_of_advanceExpression h)
    | items =>
      simp only [advance] at h
      split at h
      · cases h
      · exact .inr ⟨rfl, eq_of_advanceExpression h⟩
    | block kind =>
      simp only [advance] at h
      split at h
      · split at h <;> cases h
      -- In a block a token ends it or begins a statement, and the errors of both say nothing of what is
      -- expected.
      · exact absurd h advanceStatement_ne_unexpected

/-- A token that begins an expression is not refused where an expression is due. -/
theorem exists_advanceExpression (h : Expected.expression.Admits t) (gs : List Goal) :
    ∃ gs', advanceExpression gs t = .ok gs' := by
  obtain ⟨name, us, e, h⟩ := h
  -- The derivation tells the kind of its first token.
  cases h with
  | var hk | str hk | bool hk => exact ⟨gs, by simp only [advanceExpression, hk]⟩
  | int hk hread => exact ⟨gs, by simp [advanceExpression, hk, hread]⟩
  | unary hk | binary hk => exact ⟨operation :: gs, by simp only [advanceExpression, hk]⟩
  | list hk => exact ⟨items :: gs, by simp only [advanceExpression, hk]⟩

/-- **A token of a class that is expected is not refused** where the goal is due. -/
theorem exists_advance_of_admits (hx : g.Expects x) (hy : y ∈ x.things) (ht : y.Admits t)
    (gs : List Goal) : ∃ gs', advance t (g :: gs) = .ok gs' := by
  rcases hx with rfl | ⟨rfl, rfl⟩
  -- The expectation is that of the goal.
  · cases g with
    | name =>
      obtain rfl := List.mem_singleton.mp hy
      exact ⟨gs, if_pos ht⟩
    | keyword k =>
      obtain rfl := List.mem_singleton.mp hy
      obtain ⟨k', hk', ht⟩ := ht
      obtain rfl := List.mem_singleton.mp hk'
      exact ⟨gs, if_pos ht⟩
    | expression =>
      obtain rfl := List.mem_singleton.mp hy
      exact exists_advanceExpression ht gs
    | operation =>
      obtain rfl := List.mem_singleton.mp hy
      -- An operator is met there as well, so nothing hangs on whether the token is one.
      simp only [advance]
      split
      · exact ⟨_, rfl⟩
      · exact exists_advanceExpression ht _
    | items =>
      obtain rfl := List.mem_singleton.mp hy
      exact ⟨gs, if_pos ht⟩
    | operator =>
      obtain rfl := List.mem_singleton.mp hy
      obtain ⟨op, ht⟩ := ht
      exact ⟨gs, by simp only [advance, ht]⟩
    | closeParen =>
      obtain rfl := List.mem_singleton.mp hy
      exact ⟨gs, if_pos ht⟩
    | block kind =>
      obtain ⟨k, hk, rfl⟩ := List.mem_map.mp hy
      obtain ⟨k', hk', ht⟩ := ht
      obtain rfl := List.mem_singleton.mp hk'
      refine ⟨afterBlock gs k', ?_⟩
      simp only [advance, ht]
      exact if_pos (List.contains_iff_mem.mpr hk)
  -- An item of a list is an expression, and the token may end the list instead.
  · obtain rfl := List.mem_singleton.mp hy
    simp only [advance]
    split
    · exact ⟨_, rfl⟩
    · exact exists_advanceExpression ht _

/-- A statement is not due. -/
theorem Expects.ne_statement (h : g.Expects x) : x ≠ .statement := by
  rcases h with rfl | ⟨-, rfl⟩
  · cases g <;> nofun
  · nofun

/-- Something is expected where a goal is due. -/
theorem Expects.things_ne_nil (h : g.Expects x) : x.things ≠ [] := by
  rcases h with rfl | ⟨-, rfl⟩
  · cases g with
    | block kind => cases kind <;> nofun
    | _ => nofun
  · nofun

/-- **What a reading fails with** has nothing to do with a statement that is missed. -/
theorem expected_ne_statement (h : failure (advanceAll gs ts) = some e) :
    e.expected? ≠ some .statement := by
  -- The source ends too early, or some token is refused.
  cases hdue : advanceAll gs ts with
  | ok gs' =>
    rw [hdue] at h
    obtain ⟨g, -, rfl⟩ := Option.map_eq_some_iff.mp h
    exact fun heq => Expects.ne_statement (g := g) (.inl rfl) (Option.some.inj heq)
  | error e' =>
    rw [hdue] at h
    obtain rfl := Option.some.inj h
    obtain ⟨-, t, -, gs', -, -, hrefused⟩ := advanceAll_eq_error_iff.mp hdue
    cases e' with
    | unexpectedToken found x span =>
      obtain ⟨g, gs', rfl, hexpects⟩ := expects_of_refused hrefused
      exact fun heq => hexpects.ne_statement (Option.some.inj heq)
    | unexpectedEnd x => cases (isAbout_of_advance hrefused).1
    | _ => nofun

end Goal

/-! ### The classes of tokens -/

namespace Expected

/-- **The wording names the things** that an expectation names. -/
theorem text_eq (x : Expected) : x.text = choice (x.things.map text) := by
  cases x with
  | keywords ks =>
    simp only [text, things, List.map_map]
    rfl
  | _ => rfl

/-- A text that is cut out of its line is the text of a token. -/
theorem exists_token {s : String} (h : OwnLine s) :
    ∃ source names, ∃ t ∈ (tokenize source names).1, t.text = s ∧ t.kind = .ofText s := by
  -- The text stands on a line of its own, and is the only text there.
  have htexts : (tokenize (spread [s]) .initial).1.map (·.text) = [s] := by
    rw [texts_tokenize]
    exact texts_of_lexes (lexes_spread (List.forall_mem_singleton.mpr h))
  obtain ⟨t, htokens, rfl⟩ := List.map_eq_singleton_iff.mp htexts
  have ht : t ∈ (tokenize (spread [t.text]) .initial).1 := htokens ▸ List.mem_singleton_self t
  exact ⟨_, _, t, ht, rfl, faithful_of_begins (List.prefix_refl _) t ht⟩

/-- **There are tokens of each class.** -/
theorem exists_admitted (hx : x ≠ .statement) (hy : y ∈ x.things) :
    ∃ source names, ∃ t ∈ (tokenize source names).1, y.Admits t := by
  have hof {s : String} (h : Spells s [s])
      (hadmits : ∀ t : Token, t.text = s → t.kind = .ofText s → y.Admits t) :
      ∃ source names, ∃ t ∈ (tokenize source names).1, y.Admits t := by
    obtain ⟨source, names, t, ht, htext, hkind⟩ := exists_token h.ownLine
    exact ⟨source, names, t, ht, hadmits t htext hkind⟩
  -- By what is expected, some text of that class, which is cut out as one token.
  cases x with
  | statement => exact absurd rfl hx
  | expression =>
    obtain rfl := List.mem_singleton.mp hy
    refine hof (Spells.integer 0) fun t htext hkind => ⟨fun _ => .empty, [], .int 0, .int ?_ ?_⟩
    · rw [hkind, Integer.ofText_text]
    · rw [htext, Integer.read?_text]
  | binaryOperator =>
    obtain rfl := List.mem_singleton.mp hy
    refine hof (Spells.binary .add) fun t htext hkind => ⟨.add, ?_⟩
    rw [hkind, TokenKind.ofText_binary]
  | identifier =>
    obtain rfl := List.mem_singleton.mp hy
    have hname : TokenKind.ofText "x" = .identifier := by decide +kernel
    exact hof (Spells.identifier hname) fun t htext hkind => hkind.trans hname
  | delimiter d =>
    obtain rfl := List.mem_singleton.mp hy
    have hmark : Spells d.text [d.text] := Spells.mark (by cases d <;> decide)
    refine hof hmark fun t htext hkind => ?_
    exact hkind.trans (TokenKind.ofText_delimiter d)
  | keywords ks =>
    obtain ⟨k, -, rfl⟩ := List.mem_map.mp hy
    refine hof (Spells.keyword k) fun t htext hkind => ⟨k, List.mem_singleton_self k, ?_⟩
    exact hkind.trans (TokenKind.ofText_keyword k)

/-- **What is expected where a goal is due could stand there.** -/
theorem canFollow (hts : ts <+: (tokenize source names).1)
    (h : Goal.advanceAll [] ts = .ok (g :: gs)) (hx : g.Expects x) : x.CanFollow ts where
  text := x.text_eq
  things_ne_nil := hx.things_ne_nil
  occurs y hy := exists_admitted hx.ne_statement hy
  viable y hy source' names' t ht hadmits := by
    obtain ⟨gs', hadvance⟩ := Goal.exists_advance_of_admits hx hy hadmits gs
    have hdue : Goal.advanceAll [] (ts ++ [t]) = .ok gs' := by
      rw [Goal.advanceAll_append, h]
      simp only [Except.bind, Goal.advanceAll_cons, hadvance, Goal.advanceAll_nil]
    refine viable_of_advanceAll ?_ ?_ hdue
    · refine List.forall_mem_append.mpr ⟨faithful_of_begins hts, ?_⟩
      exact List.forall_mem_singleton.mpr (faithful_of_begins (List.prefix_refl _) t ht)
    -- Both rows of tokens are those of sources, so each of their texts can stand on a line.
    · refine List.forall_mem_append.mpr ⟨fun u hu => ownLine_of_mem (hts.subset hu), ?_⟩
      exact List.forall_mem_singleton.mpr (ownLine_of_mem ht)

end Expected

/-! ### Calls -/

namespace Parser

theorem expected_programFrom {p : Fragment} {before : List Stmt} {r : Reader} {ls : List Lexeme}
    (h : (programFrom p before r ls).1 = .error e) : e.expected? ≠ some .statement := by
  rw [programFrom_eq_readAll (.refl _) .initial] at h
  exact Goal.expected_ne_statement (readAll_eq_error_iff.mp h)

/-- **No call is answered with a statement being expected.** -/
theorem expected_call (p : Parser) (c : Call) (he : (p.call c).1.error? = some e) :
    e.expected? ≠ some .statement := by
  cases c with
  | hasNext => cases he
  | program =>
    cases hresult : p.program.1 with
    | ok prog => simp [call, Answer.error?, hresult] at he
    | error e' =>
      obtain rfl : e' = e := by simpa [call, Answer.error?, hresult] using he
      exact expected_programFrom hresult
  | statement =>
    cases hresult : p.statement.1 with
    | ok s? => simp [call_statement, Answer.error?, hresult] at he
    | error e' =>
      obtain rfl : e' = e := by simpa [call_statement, Answer.error?, hresult] using he
      -- Whoever asks for all the statements comes to the same error.
      have hprogram : (programFrom .start [] p.reader p.rest).1 = .error e' := by
        rw [programFrom_eq, ← statement, ← Prod.eta p.statement, hresult]
      exact expected_programFrom hprogram

/-- **No row of calls is answered with a statement being expected.** -/
theorem expected_calls (p : Parser) (cs : List Call) :
    ∀ a ∈ (p.calls cs).1, ∀ e ∈ a.error?, e.expected? ≠ some .statement := by
  -- By induction on the calls.
  induction cs generalizing p with
  | nil => exact fun a ha => absurd ha List.not_mem_nil
  | cons c cs ih =>
    rw [calls_cons]
    exact List.forall_mem_cons.mpr ⟨fun e he => p.expected_call c he, ih (p.call c).2⟩

end Parser

/-- **What an error says was expected could stand there.** If a token is not what was expected, it is
the last one that was consumed, and each thing that was expected, as any token that is such a thing,
could have stood in its place after the tokens before it. If the source ends too early, it could have
gone on with each thing that was expected. Whatever calls there are of a parser by recursive descent,
it does not answer that a statement was expected. -/
theorem expected_could_stand (source : String) (names : Interner) :
    (∀ found x span, (parse source names).1 = .error (.unexpectedToken found x span) →
      ∃ k t, (tokenize source names).1[k]? = some t ∧ found = t.text ∧ span = t.span ∧
        (Parser.ofSource source names).program.2.reader.taken = k + 1 ∧
        (Parser.ofSource source names).program.2.rest = (lexemes source).drop (k + 1) ∧
        x.CanFollow ((tokenize source names).1.take k)) ∧
    (∀ x, (parse source names).1 = .error (.unexpectedEnd x) →
      x.CanFollow (tokenize source names).1) ∧
    ∀ cs, ∃ answers d, (Descent.ofSource source names).calls cs = some (answers, d) ∧
      ((Parser.ofSource source names).calls cs).1 = answers ∧
      ∀ a ∈ answers, ∀ e ∈ a.error?, e.expected? ≠ some .statement := by
  refine ⟨fun found x span h => ?_, fun x h => ?_, fun cs => ?_⟩
  -- A token is refused, and the goal that it does not meet tells what could stand there.
  · rcases parse_error_cases h with ⟨g, gs, -, heq⟩ | ⟨k, t, gs, ht, hbefore, hrefused⟩
    · cases heq
    · obtain ⟨hspan, hfound⟩ := Goal.isAbout_of_advance hrefused
      obtain ⟨g, gs', rfl, hexpects⟩ := Goal.expects_of_refused hrefused
      obtain ⟨hrest, htaken, -⟩ := program_of_refused ht hbefore hrefused
      refine ⟨k, t, ht, hfound found rfl, Option.some.inj hspan, htaken, hrest, ?_⟩
      exact Expected.canFollow (List.take_prefix k _) hbefore hexpects
  -- The source ends where something is due, and that is what could come next.
  · rcases parse_error_cases h with ⟨g, gs, hdue, heq⟩ | ⟨k, t, gs, ht, hbefore, hrefused⟩
    · obtain rfl := ParseError.unexpectedEnd.inj heq
      exact Expected.canFollow (List.prefix_refl _) hdue (.inl rfl)
    · cases (Goal.isAbout_of_advance hrefused).1
  -- The descent has the answers of the parser that runs.
  · obtain ⟨d, hcalls, -⟩ := (Descent.Stands.ofSource source names).calls cs
    exact ⟨_, d, hcalls, rfl, Parser.expected_calls _ cs⟩

/-- A name stands where an operation goes on, inside a loop. Any binary operator could stand there. -/
theorem expected_could_stand_operator :
    let source := "while true do print (1 x) endwhile"
    (parse source .initial).1 = .error (.unexpectedToken "x" .binaryOperator ⟨23, 24⟩) ∧
      ∃ k t, (tokenize source .initial).1[k]? = some t ∧ "x" = t.text ∧ ⟨23, 24⟩ = t.span ∧
        (Parser.ofSource source .initial).program.2.reader.taken = k + 1 ∧
        (Parser.ofSource source .initial).program.2.rest = (lexemes source).drop (k + 1) ∧
        Expected.binaryOperator.CanFollow ((tokenize source .initial).1.take k) := by
  intro source
  have h : (parse source .initial).1 = .error (.unexpectedToken "x" .binaryOperator ⟨23, 24⟩) :=
    parse_eq_error_iff.mpr (by decide +kernel)
  exact ⟨h, (expected_could_stand source .initial).1 _ _ _ h⟩

end Silly
