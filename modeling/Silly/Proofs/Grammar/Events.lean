import Silly.Proofs.Descent.Progress
import Silly.Proofs.Grammar.Goals

/-!
# The log of a reading

What a parser leaves in the log does not depend on the names it gives. A step notes the same with every
table of names, and nothing if its token is an error (`Turn.Matches`). So the log of a reading can be
told from the tokens alone, with one table that is given beforehand (`readEvents`), and that is what a
parser's log comes to (`Parser.programFrom_log`).

An entry of the kind `advance` is made where a token is taken, and by nothing else. So these entries are
those of the tokens that were taken, in order, and there are as many of them (`filter_readEvents`).
-/

namespace Silly

variable {names names' : Interner}

/-- Whether an event is that of a token that is taken. -/
def Event.isAdvance : Event → Bool
  | .advance .. => true
  | _ => false

/-! ### What a step notes -/

namespace Turn.Matches

variable {turn turn' : Turn}

/-- What is noted of a token besides is not that it was taken. -/
theorem plain (h : turn.Matches turn') : ∀ e ∈ turn.events, e.isAdvance = false := by
  cases h with
  | @finish _ _ _ _ _ bs => cases bs <;> simp [Turn.finish, Event.isAdvance]
  | unary | binary => simp [Turn.noting, Turn.more, Event.isAdvance]
  | more | reject | unknown => exact fun e he => by cases he

/-- **Nothing is noted of an error.** -/
theorem error (h : turn.Matches turn') (e : ParseError) (he : turn.verdict.goals = .error e) :
    turn.events = [] := by
  cases h with
  | @finish _ _ _ _ _ bs => cases bs <;> cases he
  | more | unary | binary => cases he
  | reject | unknown => rfl

end Turn.Matches

/-! ### A parser's log -/

/-- **What reading a row of tokens leaves in the log**, oldest first, where `names` gives all names and `i`
tokens were taken before. -/
def readEvents (names : Interner) (p : Fragment) (before : List Stmt) (i : Nat) :
    List Token → List Event
  | [] =>
    match p.atEnd with
    | none => [.parsedProgram before.length]
    | some _ => []
  | t :: ts =>
    let turn := p.step names (t.named names)
    let taken : Event := .advance i t.kind t.span
    match turn.verdict with
    | .more p => taken :: (turn.events ++ readEvents names p before (i + 1) ts)
    | .complete s => taken :: (turn.events ++ readEvents names .start (s :: before) (i + 1) ts)
    | .reject _ => taken :: turn.events
    | .decline _ => []

/-- The entries of tokens that are taken one after another, where `i` were taken before. -/
def advances (i : Nat) (ts : List Token) : List Event :=
  ts.mapIdx fun j t => .advance (i + j) t.kind t.span

theorem advances_cons (i : Nat) (t : Token) (ts : List Token) :
    advances i (t :: ts) = .advance i t.kind t.span :: advances (i + 1) ts := by
  simp only [advances, List.mapIdx_cons, Nat.add_zero, Nat.add_assoc, Nat.add_comm 1]

namespace Reader

/-- **What one lexeme leaves in the log**: nothing if it stays where it is, and otherwise its own entry
before those of the step. -/
theorem feed_log (r : Reader) (p : Fragment) (l : Lexeme) :
    (r.feed p l).2.log =
      match (r.feed p l).1 with
      | .decline _ => r.log
      | _ => (p.step (l.token r.names).2 (l.token r.names).1).events.reverse ++
          .advance r.taken l.kind l.span :: r.log := by
  rw [(r.feed_eq p l).1, feed]
  dsimp only
  split <;> simp_all [Lexeme.token]

/-- A step notes what it does with a later table as well. -/
theorem events_feed {r : Reader} {p : Fragment} {l : Lexeme} (h : (r.feed p l).2.names.Extends names')
    (names : Interner) :
    (p.step (l.token r.names).2 (l.token r.names).1).events =
      (p.step names' ((l.token names).1.named names')).events := by
  rw [(r.feed_eq p l).2] at h
  -- The last table has what the step has named, so it names the token as it was named.
  have htoken : (l.token names).1.named names' = (l.token r.names).1 :=
    Lexeme.token_named ((p.extends_step _).trans h)
  rw [htoken]
  exact (p.matches_step _ names' _).events

end Reader

namespace Parser

/-- **A parser's log is what is read with its last table.** -/
theorem programFrom_log {p : Fragment} {before : List Stmt} {r : Reader} {ls : List Lexeme}
    (h : (programFrom p before r ls).2.names.Extends names') (names : Interner) :
    (programFrom p before r ls).2.reader.log.reverse =
      r.log.reverse ++ readEvents names' p before r.taken (tokensOf ls names).1 := by
  -- By induction on the lexemes. A lexeme has the same events and the same verdict with the last table.
  induction ls generalizing p before r names with
  | nil =>
    rw [programFrom, tokensOf, readEvents]
    split <;> simp [Reader.note, *]
  | cons l ls ih =>
    have hfeed := (extends_programFrom_cons p before r l ls).trans h
    -- The names after this lexeme are among those after all of them.
    have hjudge : (p.step names' ((l.token names).1.named names')).verdict = (r.feed p l).1 :=
      Reader.judge_feed hfeed names
    have hlog := r.feed_log p l
    have htaken := r.taken_feed p l
    rw [Reader.events_feed hfeed names] at hlog
    -- Both readings go on by the same verdict, and what it adds to the log is the same.
    rw [programFrom] at h ⊢
    simp only [tokensOf, readEvents, hjudge]
    generalize (p.step names' ((l.token names).1.named names')).events = es at hlog
    cases hr : r.feed p l with | mk verdict r' =>
    rw [hr] at hlog htaken h
    have hreverse (hlog : r'.log = es.reverse ++ .advance r.taken l.kind l.span :: r.log) :
        r'.log.reverse = r.log.reverse ++ .advance r.taken l.kind l.span :: es := by simp [hlog]
    cases verdict with
    | more p' =>
      have hone : r'.taken = r.taken + 1 := htaken fun e he => by cases he
      refine (ih h (l.token names).2).trans ?_
      rw [hreverse hlog, hone, List.append_assoc]
      rfl
    | complete s =>
      have hone : r'.taken = r.taken + 1 := htaken fun e he => by cases he
      refine (ih h (l.token names).2).trans ?_
      rw [hreverse hlog, hone, List.append_assoc]
      rfl
    | reject e => exact hreverse hlog
    -- The lexeme stays, and nothing is noted of it.
    | decline e =>
      have hsame : r'.log = r.log := hlog
      show r'.log.reverse = r.log.reverse ++ []
      rw [hsame, List.append_nil]

end Parser

/-- **The log of reading a source**, oldest first. -/
def parseEvents (source : String) (names : Interner) : List Event :=
  (Parser.ofSource source names).program.2.reader.log.reverse

/-- The log of a reading is told by its tokens and the names that it leaves. -/
theorem parseEvents_eq_readEvents (source : String) (names : Interner) :
    parseEvents source names =
      readEvents (parse source names).2 .start [] 0 (tokenize source names).1 :=
  Parser.programFrom_log (.refl _) names

/-! ### The tokens that were taken -/

theorem Fragment.isAdvance_of_mem_events {p : Fragment} {t : Token} :
    ∀ e ∈ (p.step names t).events, ¬ e.isAdvance := by
  intro e he
  rw [(p.matches_step names names t).plain e he]
  exact Bool.false_ne_true

/-- The entries of a step are left out where those of tokens are looked for. -/
theorem filter_isAdvance_events (names : Interner) (p : Fragment) (t : Token) (es : List Event) :
    ((p.step names t).events ++ es).filter Event.isAdvance = es.filter Event.isAdvance := by
  rw [List.filter_append, List.filter_eq_nil_iff.mpr Fragment.isAdvance_of_mem_events, List.nil_append]

/-- **The entries of tokens are those of the first tokens in order**, as far as the reading takes them. -/
theorem filter_readEvents (names : Interner) (p : Fragment) (before : List Stmt) (i : Nat)
    (ts : List Token) :
    ∃ m ≤ ts.length,
      (readEvents names p before i ts).filter Event.isAdvance = advances i (ts.take m) := by
  -- By induction on the tokens. Of those that are taken each has one entry, before all that its step
  -- notes.
  induction ts generalizing p before i with
  | nil =>
    refine ⟨0, Nat.le_refl _, ?_⟩
    rw [readEvents]
    split <;> rfl
  | cons t ts ih =>
    have hevents := filter_isAdvance_events names p (t.named names)
    rw [readEvents]
    cases (p.step names (t.named names)).verdict with
    | more p' =>
      obtain ⟨m, hm, hrest⟩ := ih p' before (i + 1)
      refine ⟨m + 1, Nat.succ_le_succ hm, ?_⟩
      rw [List.take_succ_cons, advances_cons, ← hrest]
      exact congrArg (_ :: ·) (hevents _)
    | complete s =>
      obtain ⟨m, hm, hrest⟩ := ih .start (s :: before) (i + 1)
      refine ⟨m + 1, Nat.succ_le_succ hm, ?_⟩
      rw [List.take_succ_cons, advances_cons, ← hrest]
      exact congrArg (_ :: ·) (hevents _)
    | reject e =>
      -- This token is the last one.
      refine ⟨1, Nat.succ_le_succ (Nat.zero_le _), ?_⟩
      have hlast := hevents []
      rw [List.append_nil] at hlast
      rw [List.take_succ_cons, advances_cons, List.take_zero]
      exact congrArg (_ :: ·) hlast
    -- The token stays, so it has no entry.
    | decline e => exact ⟨0, Nat.zero_le _, rfl⟩

/-- **A reader that has counted right**: it has taken as many tokens as the log says. -/
def Reader.Counted (r : Reader) : Prop := r.log.countP Event.isAdvance = r.taken

/-- One lexeme is counted if it is taken. -/
theorem Reader.Counted.feed {r : Reader} (h : r.Counted) (p : Fragment) (l : Lexeme) :
    (r.feed p l).2.Counted := by
  have hlog := r.feed_log p l
  have htaken := r.taken_feed p l
  -- What the step notes does not count.
  have hplain : (p.step (l.token r.names).2 (l.token r.names).1).events.reverse.countP
      Event.isAdvance = 0 :=
    List.countP_eq_zero.mpr fun e he => Fragment.isAdvance_of_mem_events e (List.mem_reverse.mp he)
  rw [Counted] at h ⊢
  cases hverdict : (r.feed p l).1 with
  -- Neither the log nor the count changes.
  | decline e =>
    simp only [hverdict] at hlog
    rw [hlog, r.taken_feed_of_decline hverdict, h]
  -- One entry is added, and the count is one more.
  | more | complete | reject =>
    simp only [hverdict] at hlog
    have hone : (r.feed p l).2.taken = r.taken + 1 := htaken (by simp [hverdict])
    rw [hlog, hone, List.countP_append, hplain, List.countP_cons, h]
    exact Nat.zero_add _

/-- **A reading counts right**, from a start that has. -/
theorem Parser.counted_programFrom {r : Reader} (h : r.Counted) (p : Fragment) (before : List Stmt)
    (ls : List Lexeme) : (programFrom p before r ls).2.reader.Counted := by
  -- By induction on the lexemes.
  induction ls generalizing p before r with
  | nil =>
    rw [programFrom]
    split <;> exact h
  | cons l ls ih =>
    have hfeed := h.feed p l
    rw [programFrom]
    cases hr : r.feed p l with | mk verdict r' =>
    rw [hr] at hfeed
    cases verdict with
    | more p' => exact ih hfeed p' before
    | complete s => exact ih hfeed .start (s :: before)
    | reject | decline => exact hfeed

/-- **The tokens that are taken**: the log has an entry for each of them, in order. -/
theorem filter_parseEvents (source : String) (names : Interner) :
    (Parser.ofSource source names).program.2.reader.taken ≤ (tokenize source names).1.length ∧
      (parseEvents source names).filter Event.isAdvance =
        advances 0 ((tokenize source names).1.take
          (Parser.ofSource source names).program.2.reader.taken) := by
  have hstart : (Reader.ofNames names).Counted := rfl
  have hcounted := Parser.counted_programFrom hstart .start [] (lexemes source)
  obtain ⟨m, hm, hfilter⟩ :=
    filter_readEvents (parse source names).2 .start [] 0 (tokenize source names).1
  rw [← parseEvents_eq_readEvents] at hfilter
  -- There are as many entries as tokens that were taken.
  have htaken : (Parser.ofSource source names).program.2.reader.taken = m := by
    calc (Parser.ofSource source names).program.2.reader.taken
        = (parseEvents source names).countP Event.isAdvance := by
          rw [parseEvents, List.countP_reverse]
          exact hcounted.symm
      _ = (advances 0 ((tokenize source names).1.take m)).length := by
          rw [← hfilter, List.countP_eq_length_filter]
      _ = m := by rw [advances, List.length_mapIdx, List.length_take_of_le hm]
  rw [htaken]
  exact ⟨hm, hfilter⟩

end Silly
