import Silly.Proofs.Display.Spelling
import Silly.Proofs.Grammar.Goals
import Silly.Proofs.Lexing.Lossless

/-!
# Errors come as early as they can

A row of token texts is *viable* if a program can begin with it. The reader keeps what it has read
viable: as long as no token is refused, each goal that is due can be met by a few tokens of its own
(`Goal.completion`), and one after another they meet all of them. A token is refused only where it
does not meet the goal that is due, and no token after it is looked at for that. So an error at a
token comes when the texts up to this token have just ceased to be viable, and the error at the end
of a source comes when all of its texts still are (`parse_error_earliest`).

That a program begins with the given texts is shown by a source that has one text on each line
(`spread`). A text that was cut out of some source is cut out of its line alone, and so are the
texts that meet a goal.
-/

namespace Silly

/-- **The beginnings of programs**, by the texts of their tokens. -/
def Viable (texts : List String) : Prop :=
  ∃ source names p, (parse source names).1 = .ok p ∧
    texts <+: (tokenize source names).1.map (·.text)

namespace ParseError

/-- The place that an error names. -/
def span? : ParseError → Option Span
  | unexpectedToken _ _ span | unknownStatement _ span | integerOutOfRange _ span
  | nestedSubroutine span => some span
  | unexpectedEnd _ => none

/-- The text that an error quotes. -/
def found? : ParseError → Option String
  | unexpectedToken text .. | unknownStatement text _ | integerOutOfRange text _ => some text
  | nestedSubroutine _ | unexpectedEnd _ => none

/-- **An error is about a token** if it names the token's place, and quotes its text if it quotes
anything. -/
def IsAbout (e : ParseError) (t : Token) : Prop :=
  e.span? = some t.span ∧ ∀ s ∈ e.found?, s = t.text

/-- The same error about another place. -/
def movedTo (span : Span) : ParseError → ParseError
  | unexpectedToken text x _ => unexpectedToken text x span
  | unknownStatement text _ => unknownStatement text span
  | integerOutOfRange text _ => integerOutOfRange text span
  | nestedSubroutine _ => nestedSubroutine span
  | unexpectedEnd x => unexpectedEnd x

end ParseError

/-! ### Tokens with the same texts -/

namespace Goal

variable {gs gs' : List Goal} {t t' : Token} {ts ts' : List Token} {e : ParseError}

/-- An expression that is due is met by kind and text. -/
theorem advanceExpression_of_face (h : t'.face = t.face) :
    advanceExpression gs t' = (advanceExpression gs t).mapError (·.movedTo t'.span) := by
  obtain ⟨hk, ht⟩ : t'.kind = t.kind ∧ t'.text = t.text := Prod.mk.inj h
  simp only [advanceExpression, unexpected, hk, ht]
  split
  case h_6 => split <;> rfl
  all_goals rfl

/-- So is the beginning of a statement. -/
theorem advanceStatement_of_face (h : t'.face = t.face) :
    advanceStatement gs t' = (advanceStatement gs t).mapError (·.movedTo t'.span) := by
  obtain ⟨hk, ht⟩ : t'.kind = t.kind ∧ t'.text = t.text := Prod.mk.inj h
  simp only [advanceStatement, hk, ht]
  cases t.kind with
  | statement k =>
    cases k with
    | sub => cases gs <;> rfl
    | _ => rfl
  | _ => rfl

/-- **A token's kind and text decide what it leaves due**, and its place goes into the error. -/
theorem advance_of_face (h : t'.face = t.face) :
    advance t' gs = (advance t gs).mapError (·.movedTo t'.span) := by
  obtain ⟨hk, ht⟩ : t'.kind = t.kind ∧ t'.text = t.text := Prod.mk.inj h
  have hexpression (gs : List Goal) :
      advanceExpression gs t' = (advanceExpression gs t).mapError (·.movedTo t'.span) :=
    advanceExpression_of_face h
  have hstatement (gs : List Goal) :
      advanceStatement gs t' = (advanceStatement gs t).mapError (·.movedTo t'.span) :=
    advanceStatement_of_face h
  fun_cases advance t gs <;> simp_all [advance, unexpected, Except.mapError, ParseError.movedTo]

/-- A row of tokens of the same kinds and texts leaves the same due. -/
theorem advanceAll_of_faces (h : ts'.map (·.face) = ts.map (·.face))
    (hts : advanceAll gs ts = .ok gs') : advanceAll gs ts' = .ok gs' := by
  -- By induction on the tokens, each of which is met or refused alike.
  induction ts generalizing gs ts' with
  | nil =>
    obtain rfl := List.map_eq_nil_iff.mp h
    exact hts
  | cons t ts ih =>
    obtain ⟨t', ts', rfl, ht, hrest⟩ := List.map_eq_cons_iff.mp h
    rw [advanceAll_cons] at hts
    rw [advanceAll_cons, advance_of_face ht]
    cases hadvance : advance t gs with
    | error e =>
      rw [hadvance] at hts
      cases hts
    | ok gs₁ =>
      rw [hadvance] at hts
      exact ih hrest hts

/-- An error about what is missing names the token in its place. -/
theorem isAbout_of_unexpected {x : Expected} (h : unexpected t x = .error e) : e.IsAbout t := by
  cases h
  simp [ParseError.IsAbout, ParseError.span?, ParseError.found?]

/-- Where an expression is due, the error is about the token. -/
theorem isAbout_of_advanceExpression (h : advanceExpression gs t = .error e) : e.IsAbout t := by
  unfold advanceExpression at h
  split at h
  case h_6 =>
    split at h
    · cases h
    · cases h
      simp [ParseError.IsAbout, ParseError.span?, ParseError.found?]
  case h_7 => exact isAbout_of_unexpected h
  all_goals cases h

/-- So it is where a statement may begin. -/
theorem isAbout_of_advanceStatement (h : advanceStatement gs t = .error e) : e.IsAbout t := by
  unfold advanceStatement at h
  split at h
  · cases h
  · split at h
    case h_6 =>
      split at h
      · cases h
      · cases h
        simp [ParseError.IsAbout, ParseError.span?, ParseError.found?]
    all_goals cases h
  · cases h
    simp [ParseError.IsAbout, ParseError.span?, ParseError.found?]

/-- **An error is about the token that is refused.** -/
theorem isAbout_of_advance (h : advance t gs = .error e) : e.IsAbout t := by
  cases gs with
  | nil => exact isAbout_of_advanceStatement h
  -- By the goal that is due first. An expression and a statement have errors of their own.
  | cons g gs =>
    cases g with
    | expression => exact isAbout_of_advanceExpression h
    | name | keyword | closeParen | operator =>
      simp only [advance] at h
      split at h
      · cases h
      · exact isAbout_of_unexpected h
    | operation | items =>
      simp only [advance] at h
      split at h
      · cases h
      · exact isAbout_of_advanceExpression h
    | block kind =>
      simp only [advance] at h
      split at h
      · split at h
        · cases h
        · cases h
          simp [ParseError.IsAbout, ParseError.span?, ParseError.found?]
      · exact isAbout_of_advanceStatement h

end Goal

/-! ### Goals can be met -/

namespace Goal

/-- **Texts that meet a goal** and leave nothing of it due. -/
def completion : Goal → List String
  | name => ["x"]
  | keyword k => [k.text]
  | expression => [Integer.text 0]
  | operation =>
    [Integer.text 0, BinaryOp.add.symbol, Integer.text 0, Delimiter.closeParen.text]
  | items => [Delimiter.closeBracket.text]
  | operator => [BinaryOp.add.symbol]
  | closeParen => [Delimiter.closeParen.text]
  | block kind => [kind.last.text]

/-- **A goal is met by the texts of its completion.** -/
theorem advanceAll_completion (g : Goal) (gs : List Goal) :
    advanceAll (g :: gs) (g.completion.map Token.spelling) = .ok gs := by
  -- The kinds of the texts are what each goal asks for.
  have hname : TokenKind.ofText "x" = .identifier := by decide +kernel
  have hzero : (Numeral.read? (Integer.text 0)).isSome = true := by rw [Integer.read?_text]; rfl
  have hparen : TokenKind.ofText Delimiter.closeParen.text = .delimiter .closeParen :=
    TokenKind.ofText_delimiter .closeParen
  have hplus : TokenKind.ofText BinaryOp.add.symbol = .binary .add := TokenKind.ofText_binary .add
  cases g with
  | block kind =>
    cases kind <;>
      simp [completion, advanceAll_cons, advance, Token.spelling, TokenKind.ofText_keyword,
        BlockKind.last, BlockKind.ends, afterBlock, Except.bind]
  | _ =>
    simp [completion, advanceAll_cons, advance, advanceExpression, Token.spelling, hname, hzero,
      hparen, hplus, Integer.ofText_text, TokenKind.ofText_keyword, TokenKind.ofText_delimiter,
      Except.bind]

/-- **All goals can be met.** -/
theorem advanceAll_completions (gs : List Goal) :
    advanceAll gs ((gs.flatMap completion).map Token.spelling) = .ok [] := by
  -- By induction on the goals, each of which is met before the next.
  induction gs with
  | nil => rfl
  | cons g gs ih =>
    rw [List.flatMap_cons, List.map_append, advanceAll_append, advanceAll_completion]
    exact ih

end Goal

/-! ### Texts on lines of their own -/

/-- A text that is cut out alone if it has a line to itself. -/
def OwnLine (s : String) : Prop :=
  ∀ cs ts, Lexes cs ts → Lexes (s.toList ++ '\n' :: cs) (s :: ts)

theorem Spells.ownLine {s : String} (h : Spells s [s]) : OwnLine s := by
  intro cs ts hts
  exact h _ _ (.of_isBreak (by decide)) (.blank (by decide) hts)

/-- **The texts that are cut out of a source** are cut out of lines of their own. -/
theorem Lexes.ownLine {cs : List Char} {ts : List String} (h : Lexes cs ts) :
    ∀ s ∈ ts, OwnLine s := by
  have hline {cs : List Char} {ts : List String} (h : Lexes cs ts) : Lexes ('\n' :: cs) ts :=
    .blank (by decide) h
  -- By induction on how the source is cut. Each text is cut out again with the break of its line after
  -- it.
  induction h with
  | nil => simp
  | blank _ _ ih => exact ih
  | @mark c _ _ hc _ ih =>
    refine List.forall_mem_cons.mpr ⟨?_, ih⟩
    intro cs us hus
    simpa [Char.toString] using Lexes.mark hc (hline hus)
  | closed hbody _ ih =>
    refine List.forall_mem_cons.mpr ⟨?_, ih⟩
    intro cs us hus
    simpa using Lexes.closed hbody (hline hus)
  -- A literal that was ended by a break, or by the end of the source, is ended by the break of its
  -- line.
  | broken hbody _ ih =>
    refine List.forall_mem_cons.mpr ⟨?_, ih⟩
    intro cs us hus
    simpa using Lexes.broken hbody hus
  | unclosed hbody =>
    refine List.forall_mem_singleton.mpr ?_
    intro cs us hus
    simpa using Lexes.broken hbody hus
  | @word c w _ _ hquote hw _ _ ih =>
    refine List.forall_mem_cons.mpr ⟨?_, ih⟩
    intro cs us hus
    simpa using Lexes.word hquote hw (.of_isBreak (by decide)) (hline hus)

/-- The texts that meet a goal stand on lines of their own. -/
theorem Goal.ownLine_completion (g : Goal) : ∀ s ∈ g.completion, OwnLine s := by
  have hzero : OwnLine (Integer.text 0) := (Spells.integer 0).ownLine
  have hplus : OwnLine BinaryOp.add.symbol := (Spells.binary .add).ownLine
  have hclose (d : Delimiter) : OwnLine d.text :=
    (Spells.mark (by cases d <;> decide)).ownLine
  have hname : OwnLine "x" := (Spells.identifier (by decide +kernel)).ownLine
  have hkeyword (k : Keyword) : OwnLine k.text := (Spells.keyword k).ownLine
  cases g <;> simp [completion, hzero, hplus, hclose, hname, hkeyword]

/-- **A source with one text on each line.** -/
def spread (texts : List String) : String :=
  String.ofList (texts.flatMap fun s => s.toList ++ ['\n'])

/-- **The lines of such a source** are cut one by one. -/
theorem lexes_spread {texts : List String} (h : ∀ s ∈ texts, OwnLine s) :
    Lexes (spread texts).toList texts := by
  rw [spread, String.toList_ofList]
  -- By induction on the texts, of which each ends with its line.
  induction texts with
  | nil => exact .nil
  | cons s texts ih =>
    obtain ⟨hs, htexts⟩ := List.forall_mem_cons.mp h
    rw [List.flatMap_cons, List.append_assoc]
    exact hs _ _ (ih htexts)

/-! ### What a token's text says -/

/-- A token that is of the kind that its text has. -/
def Token.Faithful (t : Token) : Prop := t.kind = .ofText t.text

theorem Token.faithful_spelling (s : String) : (Token.spelling s).Faithful := rfl

/-- **The tokens of a source are faithful**, and those at its beginning are among them. -/
theorem faithful_of_begins {source : String} {names : Interner} {ts : List Token}
    (h : ts <+: (tokenize source names).1) : ∀ t ∈ ts, t.Faithful := by
  intro t ht
  obtain ⟨l, -, hkind, htext, -⟩ := exists_lexeme_of_mem (h.subset ht)
  rw [Token.Faithful, ← hkind, ← htext, Lexeme.kind]

theorem faithful_of_mem_spelled {texts : List String} :
    ∀ t ∈ texts.map Token.spelling, t.Faithful := by
  intro t ht
  obtain ⟨s, -, rfl⟩ := List.mem_map.mp ht
  exact Token.faithful_spelling s

/-- The kinds of such tokens can be told from their texts. -/
theorem faces_of_texts {ts ts' : List Token} (hts : ∀ t ∈ ts, t.Faithful)
    (hts' : ∀ t ∈ ts', t.Faithful) (h : ts'.map (·.text) = ts.map (·.text)) :
    ts'.map (·.face) = ts.map (·.face) := by
  have hfaces {us : List Token} (hus : ∀ t ∈ us, t.Faithful) :
      us.map (·.face) = (us.map (·.text)).map fun s => (TokenKind.ofText s, s) := by
    rw [List.map_map]
    exact List.map_congr_left fun t ht => Prod.ext (hus t ht) rfl
  rw [hfaces hts, hfaces hts', h]

theorem texts_spelled (texts : List String) :
    (texts.map Token.spelling).map (·.text) = texts := by
  rw [List.map_map]
  exact List.map_id texts

theorem texts_tokenize (source : String) (names : Interner) :
    (tokenize source names).1.map (·.text) = (lexemes source).map (·.text) := by
  have htexts := congrArg (List.map (·.2.1)) (map_tokensOf (lexemes source) names)
  simpa [tokenize, Function.comp_def] using htexts

/-! ### What can begin a program -/

section
variable {source : String} {names : Interner} {texts : List String} {ts : List Token}
  {gs : List Goal} {e : ParseError}

/-- **A source fails with what its goals run into.** -/
theorem parse_eq_error_iff :
    (parse source names).1 = .error e ↔
      Goal.failure (Goal.advanceAll [] (tokenize source names).1) = some e := by
  rw [parse_eq_readAll]
  exact readAll_eq_error_iff

/-- **A source is a program if its tokens leave nothing due.** -/
theorem exists_parse_eq_ok_iff :
    (∃ p, (parse source names).1 = .ok p) ↔
      Goal.advanceAll [] (tokenize source names).1 = .ok [] := by
  rw [parse_eq_readAll]
  exact exists_readAll_eq_ok_iff

/-- **What begins a program meets its goals.** -/
theorem Viable.exists_advanceAll (hts : ∀ t ∈ ts, t.Faithful) (h : Viable (ts.map (·.text))) :
    ∃ gs, Goal.advanceAll [] ts = .ok gs := by
  obtain ⟨source, names, p, hp, rest, hrest⟩ := h
  have hok := exists_parse_eq_ok_iff.mp ⟨p, hp⟩
  -- The program has tokens with these texts, and they have met their goals.
  obtain ⟨us, vs, hsource, hus, -⟩ := List.map_eq_append_iff.mp hrest.symm
  have hfaithful : ∀ t ∈ us, t.Faithful := faithful_of_begins ⟨vs, hsource.symm⟩
  rw [hsource, Goal.advanceAll_append] at hok
  cases hgs : Goal.advanceAll [] us with
  | error e =>
    rw [hgs] at hok
    cases hok
  | ok gs => exact ⟨gs, Goal.advanceAll_of_faces (faces_of_texts hfaithful hts hus.symm) hgs⟩

/-- **What meets its goals begins a program**: the one in which the goals that are left are met
next. -/
theorem viable_of_advanceAll (hts : ∀ t ∈ ts, t.Faithful) (hline : ∀ t ∈ ts, OwnLine t.text)
    (h : Goal.advanceAll [] ts = .ok gs) : Viable (ts.map (·.text)) := by
  let rest := gs.flatMap Goal.completion
  -- Each text stands on a line of its own, those that are given and those that meet the goals.
  have hall : ∀ s ∈ ts.map (·.text) ++ rest, OwnLine s := by
    intro s hs
    rcases List.mem_append.mp hs with hs | hs
    · obtain ⟨t, ht, rfl⟩ := List.mem_map.mp hs
      exact hline t ht
    · obtain ⟨g, -, hg⟩ := List.mem_flatMap.mp hs
      exact g.ownLine_completion s hg
  -- So the source is cut into just these texts.
  have htexts : (tokenize (spread (ts.map (·.text) ++ rest)) .initial).1.map (·.text) =
      ts.map (·.text) ++ rest := by
    rw [texts_tokenize]
    exact texts_of_lexes (lexes_spread hall)
  have hdue : Goal.advanceAll [] (ts ++ rest.map Token.spelling) = .ok [] := by
    rw [Goal.advanceAll_append, h]
    exact Goal.advanceAll_completions gs
  have hfaithful : ∀ t ∈ ts ++ rest.map Token.spelling, t.Faithful := by
    intro t ht
    rcases List.mem_append.mp ht with ht | ht
    · exact hts t ht
    · exact faithful_of_mem_spelled t ht
  -- Its tokens have the same kinds as well, so they meet all goals.
  have hfaces := faces_of_texts hfaithful (faithful_of_begins (List.prefix_refl _))
    (by rw [htexts, List.map_append, texts_spelled])
  obtain ⟨p, hp⟩ := exists_parse_eq_ok_iff.mpr (Goal.advanceAll_of_faces hfaces hdue)
  exact ⟨_, .initial, p, hp, rest, htexts.symm⟩

/-- The text of a token of a source is cut out of a line of its own. -/
theorem ownLine_of_mem {t : Token} (ht : t ∈ (tokenize source names).1) : OwnLine t.text := by
  refine (lexes_lexemes source).ownLine t.text ?_
  rw [← texts_tokenize source names]
  exact List.mem_map_of_mem ht

/-- Tokens at the beginning of a source that meet their goals begin a program. -/
theorem viable_of_begins (hts : ts <+: (tokenize source names).1)
    (h : Goal.advanceAll [] ts = .ok gs) : Viable (ts.map (·.text)) :=
  viable_of_advanceAll (faithful_of_begins hts) (fun _ ht => ownLine_of_mem (hts.subset ht)) h

/-- **A token that is refused after other tokens** is refused after them in every source. -/
theorem parse_eq_error_of_refused {before : List Token} {t : Token}
    (hts : ∀ u ∈ before ++ [t], u.Faithful) (hbefore : Goal.advanceAll [] before = .ok gs)
    (ht : Goal.advance t gs = .error e)
    (hsource : (before ++ [t]).map (·.text) <+: (tokenize source names).1.map (·.text)) :
    ∃ t', (tokenize source names).1[before.length]? = some t' ∧ (e.movedTo t'.span).IsAbout t' ∧
      (parse source names).1 = .error (e.movedTo t'.span) := by
  obtain ⟨rest, hrest⟩ := hsource
  obtain ⟨us, after, htokens, hus, -⟩ := List.map_eq_append_iff.mp hrest.symm
  have hfaithful : ∀ u ∈ us, u.Faithful := faithful_of_begins ⟨after, htokens.symm⟩
  -- The source has tokens of the same kinds and texts, before this one and in its place.
  have hfaces := faces_of_texts hts hfaithful hus
  rw [List.map_append] at hfaces
  obtain ⟨before', last, rfl, hbefore', hlast⟩ := List.map_eq_append_iff.mp hfaces
  obtain ⟨t', rfl, ht'⟩ := List.map_eq_singleton_iff.mp hlast
  have hlength : before'.length = before.length := by
    simpa using congrArg List.length hbefore'
  -- The token in its place is refused for the same reason, as it is of the same kind and text.
  have hadvance : Goal.advance t' gs = .error (e.movedTo t'.span) := by
    rw [Goal.advance_of_face ht', ht]
    rfl
  refine ⟨t', ?_, Goal.isAbout_of_advance hadvance, ?_⟩
  · rw [htokens, ← hlength]
    simp
  · refine parse_eq_error_iff.mpr ?_
    have hall : Goal.advanceAll [] (tokenize source names).1 = .error (e.movedTo t'.span) :=
      Goal.advanceAll_eq_error_iff.mpr
        ⟨before', t', after, gs, by simp [htokens], Goal.advanceAll_of_faces hbefore' hbefore,
          hadvance⟩
    rw [hall]
    rfl

end

/-- **Syntax errors point at the earliest possible token.** If the source ends too early, its tokens
begin some program. Any other error is about a token of the source. The tokens before it begin some
program, and together with it they begin none. It is an error in every source that begins with the
same texts, whatever follows them and whatever the names are: that source fails with the same error
about the token in the same place. -/
theorem parse_error_earliest {source : String} {names : Interner} {e : ParseError}
    (h : (parse source names).1 = .error e) :
    (∀ x, e = .unexpectedEnd x → Viable ((tokenize source names).1.map (·.text))) ∧
    ((∀ x, e ≠ .unexpectedEnd x) →
      ∃ k t, (tokenize source names).1[k]? = some t ∧ e.IsAbout t ∧
        Viable (((tokenize source names).1.take k).map (·.text)) ∧
        ¬ Viable (((tokenize source names).1.take (k + 1)).map (·.text)) ∧
        ∀ source' names', ((tokenize source names).1.take (k + 1)).map (·.text) <+:
            (tokenize source' names').1.map (·.text) →
          ∃ t', (tokenize source' names').1[k]? = some t' ∧ (e.movedTo t'.span).IsAbout t' ∧
            (parse source' names').1 = .error (e.movedTo t'.span)) := by
  have hfailure := parse_eq_error_iff.mp h
  cases hdue : Goal.advanceAll [] (tokenize source names).1 with
  | ok gs =>
    -- Every token has met its goal, so goals are left at the end.
    refine ⟨fun _ _ => viable_of_begins (List.prefix_refl _) hdue, fun hend => ?_⟩
    rw [hdue, Goal.failure] at hfailure
    obtain ⟨g, -, hg⟩ := Option.map_eq_some_iff.mp hfailure
    exact absurd hg.symm (hend g.expected)
  | error e' =>
    obtain rfl : e' = e := by
      rw [hdue, Goal.failure] at hfailure
      exact Option.some.inj hfailure
    -- The first token that does not meet its goal is the one that the error is about.
    obtain ⟨before, t, after, gs, htokens, hbefore, ht⟩ := Goal.advanceAll_eq_error_iff.mp hdue
    have habout := Goal.isAbout_of_advance ht
    have hsplit : (tokenize source names).1 = (before ++ [t]) ++ after := by simp [htokens]
    have htake : (tokenize source names).1.take before.length = before := by simp [htokens]
    have htake' : (tokenize source names).1.take (before.length + 1) = before ++ [t] := by
      rw [hsplit]
      exact List.take_left' (by simp)
    have hfaithful : ∀ u ∈ before ++ [t], u.Faithful := faithful_of_begins ⟨after, hsplit.symm⟩
    refine ⟨?_, fun _ => ⟨before.length, t, ?_, habout, ?_, ?_, ?_⟩⟩
    -- The end of the source is about no token.
    · rintro x rfl
      cases habout.1
    · simp [htokens]
    · rw [htake]
      exact viable_of_begins ⟨t :: after, htokens.symm⟩ hbefore
    -- A program that began with the token as well would meet the goal with it.
    · rw [htake']
      intro hviable
      obtain ⟨gs', hgs'⟩ := hviable.exists_advanceAll hfaithful
      rw [Goal.advanceAll_append, hbefore] at hgs'
      simp only [Except.bind, Goal.advanceAll_cons, ht] at hgs'
      cases hgs'
    · rw [htake']
      intro source' names' hsource
      exact parse_eq_error_of_refused hfaithful hbefore ht hsource

/-- A subroutine inside a block: the error is about its first word, and what stands before that word
could have gone on otherwise. -/
theorem parse_error_earliest_nested :
    let source := "print 1 if true then sub f endsub endif"
    let e : ParseError := .nestedSubroutine ⟨21, 24⟩
    (parse source .initial).1 = .error e ∧
      ∃ k t, (tokenize source .initial).1[k]? = some t ∧ e.IsAbout t ∧
        Viable (((tokenize source .initial).1.take k).map (·.text)) ∧
        ¬ Viable (((tokenize source .initial).1.take (k + 1)).map (·.text)) ∧
        ∀ source' names', ((tokenize source .initial).1.take (k + 1)).map (·.text) <+:
            (tokenize source' names').1.map (·.text) →
          ∃ t', (tokenize source' names').1[k]? = some t' ∧ (e.movedTo t'.span).IsAbout t' ∧
            (parse source' names').1 = .error (e.movedTo t'.span) := by
  intro source e
  have h : (parse source .initial).1 = .error e := parse_eq_error_iff.mpr (by decide +kernel)
  exact ⟨h, (parse_error_earliest h).2 (by simp [e])⟩

end Silly
