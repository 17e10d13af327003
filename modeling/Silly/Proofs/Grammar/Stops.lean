import Silly.Proofs.Descent.Progress
import Silly.Proofs.Display.WellFormed
import Silly.Proofs.Grammar.Viable
import Silly.Proofs.Lexing.Concat

/-!
# Where a reading stops

What is due tells which error a reading comes to. Here it also tells what is left then, how many
tokens were taken, and which names there are. The tokens before the error have been read, so each of
them has been taken and has added its texts to the names (`Token.namedTexts`): its own, and for a
string literal that between its quotes. The token of the error was looked at and no more was made of
it, so it has added its own text alone. It is taken, unless it is the one kind of token that stays
where it is (`ParseError.leaves`).

The reading of a row of lexemes is followed first as far as no token is refused
(`Parser.exists_reached`), and then by one token that is (`Reader.feed_refused`) or to the end of the
row (`Parser.programFrom_nil`).
-/

namespace Silly

variable {names : Interner} {p : Fragment} {t : Token} {gs : List Goal} {e : ParseError}
  {l : Lexeme} {ls : List Lexeme} {r : Reader}

/-- **Whether the token of an error stays where it is.** -/
def ParseError.leaves : ParseError → Bool
  | unknownStatement .. => true
  | _ => false

namespace Token

/-- The text within the quotes of a string literal. -/
def inner (t : Token) : List String := if t.kind = .string then [t.contents] else []

/-- **The texts that are named when a token is read**, in order. -/
def namedTexts (t : Token) : List String := t.text :: t.inner

end Token

/-- The texts that are named when the token of a lexeme is read. -/
def Lexeme.namedTexts (l : Lexeme) : List String :=
  l.text :: if l.kind = .string then [l.contents] else []

theorem namedTexts_token (l : Lexeme) (names : Interner) :
    (l.token names).1.namedTexts = l.namedTexts := rfl

/-- A row of tokens names the texts of its lexemes. -/
theorem namedTexts_tokensOf (ls : List Lexeme) (names : Interner) :
    (tokensOf ls names).1.flatMap Token.namedTexts = ls.flatMap Lexeme.namedTexts := by
  induction ls generalizing names with
  | nil => rfl
  | cons l ls ih =>
    simp only [tokensOf, List.flatMap_cons, namedTexts_token, ih]

/-! ### What is named by a step -/

namespace Fragment

/-- A token that is no string literal leaves the names as they are. -/
theorem names_step_of_ne_string (p : Fragment) (names : Interner) (hk : t.kind ≠ .string) :
    (p.step names t).names = names := by
  obtain ⟨phase, bs⟩ := p
  cases phase with
  | between => exact stepBetween_names
  | within o need =>
    cases need with
    | name use =>
      simp only [step, stepWithin]
      split
      · cases use <;> simp
      · simp
    | gets | closing | word | operator =>
      simp only [step, stepWithin]
      split <;> simp
    | expression =>
      simp only [step, stepWithin, stepExpression]
      split
      case h_5 => split <;> simp
      case h_6 hstring => exact absurd hstring hk
      all_goals simp

/-- **A token that is not refused** adds what it has within its quotes. -/
theorem names_step_of_advance (h : Goal.advance t p.goals = .ok gs) (names : Interner) :
    (p.step names t).names = names.internAll t.inner := by
  rw [← p.goals_step names] at h
  by_cases hk : t.kind = .string
  · -- A string literal is an error where it stands, or its contents are named.
    rw [Token.inner, if_pos hk]
    rcases p.step_string names hk with ⟨e, he | he⟩ | hnames
    · rw [he] at h
      cases h
    · rw [he] at h
      cases h
    · exact hnames
  · rw [Token.inner, if_neg hk]
    exact p.names_step_of_ne_string names hk

/-- **A token that is refused** adds nothing. -/
theorem names_step_of_refused (h : Goal.advance t p.goals = .error e) (names : Interner) :
    (p.step names t).names = names := by
  by_cases hk : t.kind = .string
  · rw [← p.goals_step names] at h
    obtain ⟨phase, bs⟩ := p
    cases phase with
    | between => exact stepBetween_names
    | within o need =>
      cases need with
      | expression hole around =>
        -- A string literal is an expression.
        simp only [step, stepWithin, stepExpression, hk, goals_deliver] at h
        cases h
      | _ => simp [step, stepWithin, hk]
  · exact p.names_step_of_ne_string names hk

end Fragment

/-! ### Which token stays where it is -/

/-- An error of a verdict leaves its token where it is just if the verdict says so. -/
def Verdict.Fits : Verdict → Prop
  | reject e => e.leaves = false
  | decline e => e.leaves = true
  | _ => True

/-- **What a step comes to** has an error that fits its verdict. -/
theorem Turn.Matches.fits {turn turn' : Turn} (h : turn.Matches turn') : turn.verdict.Fits := by
  cases h with
  | @finish _ _ _ _ _ bs => cases bs <;> trivial
  | @reject _ _ e he =>
    cases e with
    -- This error is the one that leaves its token, and it is not rejected.
    | unknownStatement found span => exact absurd rfl (he found span)
    | _ => rfl
  | unknown => rfl
  | more | unary | binary => trivial

/-- **Just a token that begins no statement stays where it is.** -/
theorem Fragment.fits_step (p : Fragment) (names : Interner) (t : Token) :
    (p.step names t).verdict.Fits :=
  (p.matches_step names names t).fits

/-! ### Reading on -/

namespace Reader

/-- **A lexeme that is not refused** is taken, and its texts are named. -/
theorem feed_advance (r : Reader) (h : Goal.advance (l.token names).1 p.goals = .ok gs) :
    (r.feed p l).1.goals = .ok gs ∧ (r.feed p l).2.taken = r.taken + 1 ∧
      (r.feed p l).2.names = r.names.internAll l.namedTexts := by
  obtain ⟨hverdict, hnames⟩ := r.feed_eq p l
  have hstep := p.goals_step (l.token r.names).2 (l.token r.names).1
  have hadvance : Goal.advance (l.token r.names).1 p.goals = .ok gs := h
  rw [← hverdict, hadvance] at hstep
  refine ⟨hstep, r.taken_feed p l fun e he => ?_, hnames.trans ?_⟩
  · rw [he] at hstep
    cases hstep
  · rw [Fragment.names_step_of_advance hadvance, ← namedTexts_token l r.names]
    rfl

/-- **A lexeme that is refused** has its own text named alone, and stays where it is if its error
leaves it there. -/
theorem feed_refused (r : Reader) (h : Goal.advance (l.token names).1 p.goals = .error e) :
    (r.feed p l).1 = (if e.leaves then .decline e else .reject e) ∧
      (r.feed p l).2.taken = (if e.leaves then r.taken else r.taken + 1) ∧
      (r.feed p l).2.names = r.names.internAll [l.text] := by
  obtain ⟨hverdict, hnames⟩ := r.feed_eq p l
  have hstep := p.goals_step (l.token r.names).2 (l.token r.names).1
  have hadvance : Goal.advance (l.token r.names).1 p.goals = .error e := h
  have hfits := p.fits_step (l.token r.names).2 (l.token r.names).1
  rw [← hverdict, hadvance] at hstep
  rw [← hverdict] at hfits
  have hnamed : (r.feed p l).2.names = r.names.internAll [l.text] :=
    hnames.trans (Fragment.names_step_of_refused hadvance _)
  -- The step is an error, so it is rejected or declined, and which of the two the error tells.
  cases hfeed : (r.feed p l).1 with
  | more | complete =>
    rw [hfeed] at hstep
    cases hstep
  | reject e' =>
    rw [hfeed] at hstep hfits
    cases hstep
    have htaken := r.taken_feed p l (by simp [hfeed])
    simp only [Verdict.Fits] at hfits
    simp [hfits, htaken, hnamed]
  | decline e' =>
    rw [hfeed] at hstep hfits
    cases hstep
    have htaken := r.taken_feed_of_decline hfeed
    simp only [Verdict.Fits] at hfits
    simp [hfits, htaken, hnamed]

end Reader

namespace Parser

variable {before : List Stmt}

/-- **Lexemes that are not refused** are taken one after another, and their texts are named. -/
theorem exists_reached (h : Goal.advanceAll p.goals (tokensOf ls names).1 = .ok gs)
    (before : List Stmt) (r : Reader) (rest : List Lexeme) :
    ∃ q before' r', programFrom p before r (ls ++ rest) = programFrom q before' r' rest ∧
      q.goals = gs ∧ r'.taken = r.taken + ls.length ∧
      r'.names = r.names.internAll (ls.flatMap Lexeme.namedTexts) := by
  -- By induction on the lexemes, none of which is refused.
  induction ls generalizing p before r names with
  | nil => exact ⟨p, before, r, rfl, Except.ok.inj h, rfl, rfl⟩
  -- No lexeme is left.
  | cons l ls ih =>
    rw [tokensOf, Goal.advanceAll_cons] at h
    cases hl : Goal.advance (l.token names).1 p.goals with
    | error e =>
      rw [hl] at h
      cases h
    | ok gs₁ =>
      rw [hl] at h
      obtain ⟨hgoals, htaken, hnames⟩ := r.feed_advance hl
      -- The lexeme leaves more to be read, or it completes a statement.
      have hnext : ∃ q before', programFrom p before r (l :: (ls ++ rest)) =
          programFrom q before' (r.feed p l).2 (ls ++ rest) ∧ q.goals = gs₁ := by
        rw [programFrom]
        cases hfeed : r.feed p l with | mk verdict r' =>
        rw [hfeed] at hgoals
        cases verdict with
        | more q => exact ⟨q, before, rfl, Except.ok.inj hgoals⟩
        | complete s => exact ⟨.start, s :: before, rfl, Except.ok.inj hgoals⟩
        | reject | decline => cases hgoals
      obtain ⟨q, before', hq, rfl⟩ := hnext
      obtain ⟨q', before'', r', hrest, hgs, htaken', hnames'⟩ := ih h before' (r.feed p l).2
      refine ⟨q', before'', r', hq.trans hrest, hgs, ?_, ?_⟩
      · rw [htaken', htaken, List.length_cons]
        omega
      · rw [hnames', hnames, List.flatMap_cons, Interner.internAll_append]

/-- **At the end of the lexemes** the reading comes to what is due there. -/
theorem programFrom_nil (p : Fragment) (before : List Stmt) (r : Reader) :
    (programFrom p before r []).2.rest = [] ∧
      (programFrom p before r []).2.reader.taken = r.taken ∧
      (programFrom p before r []).2.names = r.names := by
  rw [programFrom]
  split <;> exact ⟨rfl, rfl, rfl⟩

/-- **At a lexeme that is refused** the reading stops. -/
theorem programFrom_refused (h : Goal.advance (l.token names).1 p.goals = .error e)
    (before : List Stmt) (r : Reader) (ls : List Lexeme) :
    (programFrom p before r (l :: ls)).2.rest = (if e.leaves then l :: ls else ls) ∧
      (programFrom p before r (l :: ls)).2.reader.taken =
        (if e.leaves then r.taken else r.taken + 1) ∧
      (programFrom p before r (l :: ls)).2.names = r.names.internAll [l.text] := by
  -- The reading ends with the lexeme, and takes it or leaves it.
  obtain ⟨hverdict, htaken, hnames⟩ := r.feed_refused h
  rw [programFrom]
  cases hfeed : r.feed p l with | mk verdict r' =>
  rw [hfeed] at hverdict htaken hnames
  cases hleaves : e.leaves <;> simp_all [Parser.names]

end Parser

/-! ### Sources -/

section Sources

variable {source : String} {k : Nat}

/-- **A token and its lexeme**, and the tokens and the lexemes before them. -/
theorem exists_lexeme_at (ht : (tokensOf ls names).1[k]? = some t) :
    ∃ l names', ls.drop k = l :: ls.drop (k + 1) ∧ (l.token names').1 = t ∧
      (tokensOf (ls.take k) names).1 = (tokensOf ls names).1.take k := by
  have hk : k < ls.length := by
    have hlt := (List.getElem?_eq_some_iff.mp ht).1
    rwa [length_tokensOf] at hlt
  -- The tokens before are those of the lexemes before, whatever comes after.
  have hdrop : ls.drop k = ls[k] :: ls.drop (k + 1) := List.drop_eq_getElem_cons hk
  have hlength : (tokensOf (ls.take k) names).1.length = k := by
    rw [length_tokensOf, List.length_take_of_le hk.le]
  have htokens := tokensOf_append (ls.take k) (ls.drop k) names
  rw [List.take_append_drop] at htokens
  refine ⟨ls[k], (tokensOf (ls.take k) names).2, hdrop, ?_, ?_⟩
  · rw [htokens, List.getElem?_append_right hlength.le, hlength, Nat.sub_self, hdrop] at ht
    exact Option.some.inj ht
  · rw [htokens, List.take_left' hlength]

/-- **A source whose tokens are all read** is left with nothing, all its tokens are taken, and all its
texts are named. -/
theorem program_of_reached (h : Goal.advanceAll [] (tokenize source names).1 = .ok gs) :
    (Parser.ofSource source names).program.2.rest = [] ∧
      (Parser.ofSource source names).program.2.reader.taken = (tokenize source names).1.length ∧
      (parse source names).2 =
        names.internAll ((tokenize source names).1.flatMap Token.namedTexts) := by
  -- The reading goes through all lexemes and comes to the end.
  obtain ⟨q, before, r, hread, -, htaken, hnames⟩ :=
    Parser.exists_reached (p := .start) h [] (.ofNames names) []
  have hprogram : (Parser.ofSource source names).program = Parser.programFrom q before r [] := by
    rwa [List.append_nil] at hread
  obtain ⟨hrest, hcount, hend⟩ := Parser.programFrom_nil q before r
  refine ⟨by rw [hprogram, hrest], ?_, ?_⟩
  · rw [hprogram, hcount, htaken, tokenize, length_tokensOf]
    exact Nat.zero_add _
  · calc
      (parse source names).2 = (Parser.ofSource source names).program.2.names := rfl
      _ = r.names := by rw [hprogram, hend]
      _ = names.internAll ((tokenize source names).1.flatMap Token.namedTexts) := by
        rw [hnames, tokenize, namedTexts_tokensOf]
        rfl

/-- **A source of which a token is refused**: what is left, how many tokens were taken, and what is
named. -/
theorem program_of_refused (ht : (tokenize source names).1[k]? = some t)
    (hbefore : Goal.advanceAll [] ((tokenize source names).1.take k) = .ok gs)
    (hrefused : Goal.advance t gs = .error e) :
    (Parser.ofSource source names).program.2.rest =
        (if e.leaves then (lexemes source).drop k else (lexemes source).drop (k + 1)) ∧
      (Parser.ofSource source names).program.2.reader.taken = (if e.leaves then k else k + 1) ∧
      (parse source names).2 =
        names.internAll (((tokenize source names).1.take k).flatMap Token.namedTexts ++ [t.text]) := by
  -- The token is that of a lexeme, and the reading goes up to it.
  obtain ⟨l, names', hdrop, rfl, htake⟩ := exists_lexeme_at ht
  have hlength : ((lexemes source).take k).length = k := by
    have hlt := (List.getElem?_eq_some_iff.mp ht).1
    rw [tokenize, length_tokensOf] at hlt
    exact List.length_take_of_le hlt.le
  rw [tokenize, ← htake] at hbefore
  obtain ⟨q, before, r, hread, rfl, htaken, hnames⟩ := Parser.exists_reached (p := .start) hbefore []
    (.ofNames names) ((lexemes source).drop k)
  have hcount : r.taken = k := by
    rw [htaken, hlength]
    exact Nat.zero_add k
  rw [List.take_append_drop, hdrop] at hread
  have hprogram : (Parser.ofSource source names).program =
      Parser.programFrom q before r (l :: (lexemes source).drop (k + 1)) := hread
  obtain ⟨hrest, htaken', hnames'⟩ :=
    Parser.programFrom_refused hrefused before r ((lexemes source).drop (k + 1))
  refine ⟨by rw [hprogram, hrest, hdrop], by rw [hprogram, htaken', hcount], ?_⟩
  calc
    (parse source names).2 = (Parser.ofSource source names).program.2.names := rfl
    _ = r.names.internAll [l.text] := by rw [hprogram, hnames']
    _ = names.internAll (((tokenize source names).1.take k).flatMap Token.namedTexts ++ [l.text]) := by
      rw [hnames, tokenize, ← htake, namedTexts_tokensOf, Interner.internAll_append]
      rfl

/-- **Why a source is no program.** Something is due at its end, or a token of it is refused. -/
theorem parse_error_cases (h : (parse source names).1 = .error e) :
    (∃ g gs, Goal.advanceAll [] (tokenize source names).1 = .ok (g :: gs) ∧
        e = .unexpectedEnd g.expected) ∨
      ∃ k t gs, (tokenize source names).1[k]? = some t ∧
        Goal.advanceAll [] ((tokenize source names).1.take k) = .ok gs ∧
        Goal.advance t gs = .error e := by
  have hfailure := parse_eq_error_iff.mp h
  -- All tokens are read, and something is due, or a token is refused.
  cases hdue : Goal.advanceAll [] (tokenize source names).1 with
  | ok gs =>
    rw [hdue] at hfailure
    obtain ⟨g, hg, rfl⟩ := Option.map_eq_some_iff.mp hfailure
    obtain ⟨gs', rfl⟩ := List.head?_eq_some_iff.mp hg
    exact .inl ⟨g, gs', rfl, rfl⟩
  | error e' =>
    rw [hdue] at hfailure
    obtain rfl := Option.some.inj hfailure
    obtain ⟨before, t, after, gs, htokens, hbefore, ht⟩ := Goal.advanceAll_eq_error_iff.mp hdue
    refine .inr ⟨before.length, t, gs, ?_, ?_, ht⟩
    · simp [htokens]
    · rwa [htokens, List.take_left' rfl]

end Sources

end Silly
