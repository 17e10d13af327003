import Silly.Proofs.Descent.Basic
import Silly.Proofs.Grammar.Reading

/-!
# Following the reader that runs

The parser that runs reads on in a partly read statement, and at each point it is settled what it
will come to: the *outcome*. A function of the descent follows it if the two agree on the outcome.
When the function begins, reading on from the partly read statement at that point gives the outcome.
When it returns, so does reading on from what it returns. And when it fails, its error is the
outcome, with what was kept and what was left (`Descend.Follows`).

That is a statement about total correctness, and it has a rule for each way in which functions are
put together. What the rules see of a parser is what its reader keeps and which lexemes are left. So
whether a token is the lookahead or has not been scanned is decided once, by the rules for `peek`
and `advance` (`Descent.Left`), and that no block is left open once, by the rule for blocks.
-/

namespace Silly

variable {d : Descent} {l : Lexeme} {ls : List Lexeme} {r : Reader} {p : Fragment} {t : Token}

/-! ### Names given twice -/

/-- A text that is named again gets the name that it has, and nothing is added. -/
theorem Interner.intern_of_extends {names names' : Interner} {s : String}
    (h : (names.intern s).2.Extends names') : names'.intern s = ((names.intern s).1, names') := by
  have hagain := TextTable.intern_of_some (h s _ (names.table.index_intern_self s))
  simp only [intern, hagain]

/-- A lexeme that is named again gives the same token. -/
theorem Lexeme.token_of_extends {names names' : Interner} (h : (l.token names).2.Extends names') :
    l.token names' = ((l.token names).1, names') := by
  simp only [token, Interner.intern_of_extends h]

theorem Lexeme.token_token (l : Lexeme) (names : Interner) :
    l.token (l.token names).2 = l.token names :=
  token_of_extends (.refl _)

/-- The reader after a look at `l`: its text is named. -/
def Reader.look (r : Reader) (l : Lexeme) : Reader := { r with names := (l.token r.names).2 }

/-- The reader after `l` is consumed, before anything is made of it. -/
def Reader.take (r : Reader) (l : Lexeme) : Reader where
  names := (l.token r.names).2
  taken := r.taken + 1
  log := .advance r.taken l.kind l.span :: r.log

/-- After a look at a lexeme the parser that runs makes of it what it would have made before. -/
theorem Reader.feed_look : (r.look l).feed p l = r.feed p l := by
  have htoken : l.token (r.look l).names = l.token r.names := l.token_token r.names
  simp only [feed, htoken]
  rfl

/-- So a look ahead changes nothing about the statement that is read. -/
theorem Parser.statementFrom_look :
    statementFrom p (r.look l) (l :: ls) = statementFrom p r (l :: ls) := by
  rw [statementFrom, statementFrom, Reader.feed_look]

/-! ### The lexemes that are left -/

/-- **The lexemes that are left** to a parser: those that have not been scanned, and before them
that of the lookahead, whose text has been named. -/
def Descent.Left (d : Descent) (ls : List Lexeme) : Prop :=
  match d.lookahead with
  | none => ls = d.rest
  | some t => ∃ l, ls = l :: d.rest ∧ l.token d.reader.names = (t, d.reader.names)

namespace Descent.Left

/-- Where nothing is left, nothing has been looked at. -/
theorem eq_of_nil (h : d.Left []) : d = ⟨[], none, d.reader, d.depth⟩ := by
  obtain ⟨rest, lookahead, reader, depth⟩ := d
  cases lookahead with
  | none =>
    obtain rfl : [] = rest := h
    rfl
  | some t =>
    -- A lookahead would be a lexeme that is left.
    obtain ⟨l, hl, -⟩ := h
    cases hl

/-- The first of the lexemes that are left has not been scanned, or it is that of the lookahead. -/
theorem eq_of_cons (h : d.Left (l :: ls)) :
    d = ⟨l :: ls, none, d.reader, d.depth⟩ ∨
      ∃ t, d = ⟨ls, some t, d.reader, d.depth⟩ ∧ l.token d.reader.names = (t, d.reader.names) := by
  obtain ⟨rest, lookahead, reader, depth⟩ := d
  cases lookahead with
  | none =>
    obtain rfl : l :: ls = rest := h
    exact .inl rfl
  | some t =>
    obtain ⟨l', hl, htoken⟩ := h
    obtain ⟨rfl, rfl⟩ := List.cons.inj hl
    exact .inr ⟨t, rfl, htoken⟩

theorem peek_nil (h : d.Left []) : d.peek = (none, d) := by
  rw [h.eq_of_nil]
  rfl

/-- **A look ahead** shows the token of the first lexeme that is left, which is the lookahead then. -/
theorem peek_cons (h : d.Left (l :: ls)) :
    d.peek = (some (l.token d.reader.names).1,
        ⟨ls, some (l.token d.reader.names).1, d.reader.look l, d.depth⟩) := by
  -- If the lexeme has been scanned before, naming it once more changes nothing.
  obtain hd | ⟨t, hd, htoken⟩ := h.eq_of_cons
  · rw [hd]
    rfl
  · rw [Reader.look, htoken, hd]
    rfl

theorem advance_nil (h : d.Left []) : d.advance = (none, d) := by
  rw [h.eq_of_nil]
  rfl

/-- **The first token that is left is taken**, from the source or from the lookahead. -/
theorem advance_cons (h : d.Left (l :: ls)) :
    d.advance = (some (l.token d.reader.names).1, ⟨ls, none, d.reader.take l, d.depth⟩) := by
  obtain hd | ⟨t, hd, htoken⟩ := h.eq_of_cons
  · rw [hd]
    rfl
  -- The lookahead is told by its kind and its place, which are those of its lexeme.
  · have hkind : t.kind = l.kind := congrArg (·.1.kind) htoken.symm
    have hspan : t.span = l.span := congrArg (·.1.span) htoken.symm
    rw [Reader.take, htoken, hd]
    simp only [advance, nextToken, hkind, hspan]

/-- A lexeme that has been looked at is left with its token as the lookahead. -/
theorem of_look (l : Lexeme) (ls : List Lexeme) (r : Reader) (depth : Nat) :
    Left ⟨ls, some (l.token r.names).1, r.look l, depth⟩ (l :: ls) :=
  ⟨l, rfl, l.token_token r.names⟩

/-- A text is named, by which the lookahead keeps its name. -/
theorem intern (h : d.Left ls) (s : String) : (d.intern s).2.Left ls := by
  obtain ⟨rest, lookahead, reader, depth⟩ := d
  cases lookahead with
  | none => exact h
  | some t =>
    obtain ⟨l, hl, htoken⟩ := h
    -- The new text comes after the lookahead has been named, so its name stays.
    have hextends : (l.token reader.names).2.Extends (reader.names.intern s).2 := by
      rw [htoken]
      exact reader.names.extends_intern s
    refine ⟨l, hl, (Lexeme.token_of_extends hextends).trans ?_⟩
    rw [htoken]
    rfl

end Descent.Left

/-! ### Following -/

/-- What the reading of one statement comes to: its result, and where the parser is then. -/
abbrev Descend.Outcome := Except ParseError (Option Stmt) × Parser

/-- What is said of a parser at some point: of what it keeps, and of the lexemes that are left. -/
abbrev Descend.Assertion := Reader → List Lexeme → Prop

/-- **Following.** From each parser of which `A` holds, with `k` open blocks, `m` comes to an end,
and there are `k` open blocks again. If it has a result `a`, then `Q a` holds. If it has an error,
then `O` is that error and the place that the parser is at. -/
def Descend.Follows {α : Type} (O : Outcome) (k : Nat) (A : Assertion) (m : Descend α)
    (Q : α → Assertion) : Prop :=
  ∀ d ls, d.Left ls → d.depth = k → A d.reader ls →
    ∃ result d' ls', m d = some (result, d') ∧ d'.Left ls' ∧ d'.depth = k ∧
      match result with
      | .ok a => Q a d'.reader ls'
      | .error e => O = (.error e, ⟨ls', d'.reader⟩)

namespace Descend

variable {α β : Type} {m : Descend α} {f : α → Descend β} {a : α} {d' : Descent}

theorem run_modifyGet {f : Descent → α × Descent} (h : f d = (a, d')) :
    (modifyGet f : Descend α) d = some (.ok a, d') :=
  congrArg (fun p : α × Descent => some (Except.ok p.1, p.2)) h

theorem run_bind (h : m d = some (.ok a, d')) : (m >>= f) d = f a d' :=
  congrArg (Option.bind · _) h

theorem run_bind_error {e : ParseError} (h : m d = some (.error e, d')) :
    (m >>= f) d = some (.error e, d') :=
  congrArg (Option.bind · _) h

end Descend

namespace Descend.Follows

variable {α β : Type} {O : Outcome} {k : Nat} {A A' : Assertion} {m : Descend α}
  {Q Q' : α → Assertion}

/-- **A result that is at hand.** -/
theorem pure {a : α} (h : ∀ r ls, A r ls → Q a r ls) : Follows O k A (pure a) Q :=
  fun d ls hleft hdepth hA => ⟨.ok a, d, ls, rfl, hleft, hdepth, h d.reader ls hA⟩

/-- **An error**, which must be the outcome where it comes up. -/
theorem throw {e : ParseError} (h : ∀ r ls, A r ls → O = (.error e, ⟨ls, r⟩)) :
    Follows O k A (throw e) Q :=
  fun d ls hleft hdepth hA => ⟨.error e, d, ls, rfl, hleft, hdepth, h d.reader ls hA⟩

/-- **One after the other**: what the first has come to is what the second begins with. -/
theorem bind {f : α → Descend β} {Q : β → Assertion} {B : α → Assertion}
    (hm : Follows O k A m B) (hf : ∀ a, Follows O k (B a) (f a) Q) :
    Follows O k A (m >>= f) Q := by
  intro d ls hleft hdepth hA
  obtain ⟨result, d₁, ls₁, hrun, hleft₁, hdepth₁, h₁⟩ := hm d ls hleft hdepth hA
  -- An error of the first is that of both, and the second is not reached.
  cases result with
  | ok a =>
    obtain ⟨result, d₂, ls₂, hrun₂, h₂⟩ := hf a d₁ ls₁ hleft₁ hdepth₁ h₁
    exact ⟨result, d₂, ls₂, (run_bind hrun).trans hrun₂, h₂⟩
  | error e => exact ⟨.error e, d₁, ls₁, run_bind_error hrun, hleft₁, hdepth₁, h₁⟩

theorem mono_left (hA : ∀ r ls, A' r ls → A r ls) (hm : Follows O k A m Q) :
    Follows O k A' m Q :=
  fun d ls hleft hdepth hA' => hm d ls hleft hdepth (hA _ _ hA')

/-- More is said of a result. -/
theorem mono_right (hQ : ∀ a r ls, Q a r ls → Q' a r ls) (hm : Follows O k A m Q) :
    Follows O k A m Q' := by
  intro d ls hleft hdepth hA
  obtain ⟨result, d', ls', hrun, hleft', hdepth', h'⟩ := hm d ls hleft hdepth hA
  refine ⟨result, d', ls', hrun, hleft', hdepth', ?_⟩
  -- Only what is said of a result changes. An error is the outcome as before.
  cases result with
  | ok a => exact hQ a _ _ h'
  | error => exact h'

/-- What holds at the start whatever the parser keeps may be taken for granted. -/
theorem assume {P : Prop} (hP : ∀ r ls, A r ls → P) (hm : P → Follows O k A m Q) :
    Follows O k A m Q :=
  fun d ls hleft hdepth hA => hm (hP _ _ hA) d ls hleft hdepth hA

/-- What is done may depend on the parser, of which the open blocks are known. -/
theorem of_get {f : Descent → Descend α} (h : ∀ d, d.depth = k → Follows O k A (f d) Q) :
    Follows O k A (get >>= f) Q :=
  fun d ls hleft hdepth hA => h d hdepth d ls hleft hdepth hA

theorem of_exists {ι : Type} {B : ι → Assertion} (h : ∀ i, Follows O k (B i) m Q) :
    Follows O k (fun r ls => ∃ i, B i r ls) m Q := by
  intro d ls hleft hdepth hB
  obtain ⟨i, hB⟩ := hB
  exact h i d ls hleft hdepth hB

/-- **A note in the log**, by which nothing is consumed. -/
theorem note {e : Event} {Q : Unit → Assertion} (h : ∀ r ls, A r ls → Q () (r.note e) ls) :
    Follows O k A (note e) Q := by
  intro d ls hleft hdepth hA
  exact ⟨.ok (), { d with reader := d.reader.note e }, ls, rfl, hleft, hdepth, h _ _ hA⟩

/-- **A text is named**, by which the lexemes that are left stay. -/
theorem intern {s : String} {Q : Name → Assertion}
    (h : ∀ r ls, A r ls →
      Q (r.names.intern s).1 { r with names := (r.names.intern s).2 } ls) :
    Follows O k A (modifyGet (Descent.intern s)) Q :=
  fun d ls hleft hdepth hA =>
    ⟨.ok _, (d.intern s).2, ls, rfl, hleft.intern s, hdepth, h _ _ hA⟩

/-- A look ahead names a token, and nothing else of what is seen changes. -/
theorem peek {Q : Option Token → Assertion} (hnil : ∀ r, A r [] → Q none r [])
    (hcons : ∀ r l ls, A r (l :: ls) → Q (some (l.token r.names).1) (r.look l) (l :: ls)) :
    Follows O k A peek Q := by
  intro d ls hleft hdepth hA
  -- The one thing that tells the parsers apart, whether the lexeme has been scanned, is settled here.
  cases ls with
  | nil => exact ⟨.ok none, d, [], run_modifyGet hleft.peek_nil, hleft, hdepth, hnil _ hA⟩
  | cons l ls =>
    exact ⟨.ok _, _, l :: ls, run_modifyGet hleft.peek_cons, .of_look l ls _ _, hdepth,
      hcons _ _ _ hA⟩

/-- **A token is taken**, and from here it is what the parser that runs has made of it. -/
theorem advance {Q : Option Token → Assertion} (hnil : ∀ r, A r [] → Q none r [])
    (hcons : ∀ r l ls, A r (l :: ls) → Q (some (l.token r.names).1) (r.take l) ls) :
    Follows O k A advance Q := by
  intro d ls hleft hdepth hA
  cases ls with
  | nil => exact ⟨.ok none, d, [], run_modifyGet hleft.advance_nil, hleft, hdepth, hnil _ hA⟩
  | cons l ls =>
    refine ⟨.ok _, _, ls, run_modifyGet hleft.advance_cons, ?_, hdepth, hcons _ _ _ hA⟩
    exact rfl

/-- What is settled where a token has to follow: `Q` of the token that does, or else the error. -/
def OrEnd (O : Outcome) (x : Expected) (Q : Token → Assertion) : Option Token → Assertion
  | some t => Q t
  | none => fun r ls => O = (.error (.unexpectedEnd x), ⟨ls, r⟩)

/-- **The end of the source is an error** before a token that has to follow. -/
theorem nextOrEnd {x : Expected} {Q : Token → Assertion}
    (hnil : ∀ r, A r [] → O = (.error (.unexpectedEnd x), ⟨[], r⟩))
    (hcons : ∀ r l ls, A r (l :: ls) → Q (l.token r.names).1 (r.take l) ls) :
    Follows O k A (nextOrEnd x) Q := by
  have hadvance : Follows O k A Descend.advance (OrEnd O x Q) := advance hnil hcons
  refine hadvance.bind fun t? => ?_
  -- A token is handed on, and without one the error is raised.
  cases t? with
  | some t => exact pure fun r ls h => h
  | none => exact throw fun r ls h => h

end Descend.Follows

/-! ### Where the parser that runs is -/

section Reads

open Descend

variable {O : Outcome} {k n n' : Nat} {names : Interner} {turn : Interner → Turn}

/-- What the parser that runs comes to after a token was consumed and `turn` was made of it. -/
def Turn.goOn (turn : Turn) (r : Reader) (ls : List Lexeme) : Outcome :=
  let r : Reader := ⟨turn.names, r.taken, turn.events.reverse ++ r.log⟩
  match turn.verdict with
  | .more p => Parser.statementFrom p r ls
  | .complete s => (.ok (some s), ⟨ls, r⟩)
  | .reject e | .decline e => (.error e, ⟨ls, r⟩)

/-- **A token that is not declined is consumed**, and the parser that runs goes on with what it has made
of it. -/
theorem Parser.statementFrom_cons
    (h : ∀ e, (p.step (l.token r.names).2 (l.token r.names).1).verdict ≠ .decline e) :
    statementFrom p r (l :: ls) =
      (p.step (l.token r.names).2 (l.token r.names).1).goOn (r.take l) ls := by
  -- What it makes of a token is a case of its verdict, of which one is excluded.
  rw [statementFrom, Reader.feed]
  cases hverdict : (p.step (l.token r.names).2 (l.token r.names).1).verdict with
  | decline e => exact absurd hverdict (h e)
  | _ =>
    simp only [hverdict, Turn.goOn]
    rfl

/-- **The parser that runs is at `p`**, and comes to `O` from there. Fewer than `n` lexemes are
left, and it is by induction on `n` that the functions that call each other are proved right. -/
def Descend.Reads (O : Outcome) (n : Nat) (p : Fragment) : Assertion := fun r ls =>
  ls.length < n ∧ Parser.statementFrom p r ls = O

/-- **The parser that runs has consumed a token**, made `turn` of it, and comes to `O` from
there. -/
def Descend.Turned (O : Outcome) (n : Nat) (turn : Interner → Turn) : Assertion := fun r ls =>
  ls.length < n ∧ (turn r.names).goOn r ls = O

/-- The parser that runs is at `p`, and the next token is `t`, which has been looked at. -/
def Descend.Seen (O : Outcome) (n : Nat) (p : Fragment) (t : Token) : Assertion := fun r ls =>
  Reads O n p r ls ∧ ∃ l ls', ls = l :: ls' ∧ l.token r.names = (t, r.names)

namespace Descend

theorem Reads.mono (h : n ≤ n') (hreads : Reads O n p r ls) : Reads O n' p r ls :=
  ⟨Nat.lt_of_lt_of_le hreads.1 h, hreads.2⟩

theorem Turned.mono (h : n ≤ n') (hturned : Turned O n turn r ls) : Turned O n' turn r ls :=
  ⟨Nat.lt_of_lt_of_le hturned.1 h, hturned.2⟩

/-- **The first lexeme is taken.** One fewer is left, and the outcome is what its turn comes to. -/
theorem Reads.take (h : Reads O n p r (l :: ls))
    (hd : ∀ names e, (p.step names (l.token r.names).1).verdict ≠ .decline e) :
    Turned O (n - 1) (fun names => p.step names (l.token r.names).1) (r.take l) ls := by
  obtain ⟨hlt, hO⟩ := h
  rw [Parser.statementFrom_cons (hd _)] at hO
  exact ⟨Nat.lt_sub_of_add_lt hlt, hO⟩

/-- There are no fewer than no lexemes. -/
theorem Follows.reads_zero {α : Type} {m : Descend α} {Q : α → Assertion} :
    Follows O k (Reads O 0 p) m Q :=
  Follows.assume (fun _ _ h => absurd h.1 (Nat.not_lt_zero _)) False.elim

/-- The source may not end where something is open. -/
theorem Reads.eq_of_atEnd {e : ParseError} (h : Reads O n p r []) (he : p.atEnd = some e) :
    O = (.error e, ⟨[], r⟩) := by
  rw [← h.2, Parser.statementFrom, he]

/-- A token that begins no statement stays where it is. -/
theorem Seen.eq_of_unknown (h : Seen O n p t r ls)
    (hstep : ∀ names, p.step names t = Turn.unknown names t) :
    O = (.error (.unknownStatement t.text t.span), ⟨ls, r⟩) := by
  obtain ⟨⟨-, hO⟩, l, ls, rfl, htoken⟩ := h
  rw [← hO, Parser.statementFrom, Reader.feed]
  simp only [htoken, hstep, Turn.unknown]

/-- The parser that runs needs something more, of which the log may say something first. -/
theorem Turned.reads {phase : Phase} {blocks : List OpenBlock}
    (h : Turned O n (fun names => Turn.more names phase blocks) r ls) :
    Reads O n ⟨phase, blocks⟩ r ls :=
  h

theorem Turned.reads_note {phase : Phase} {blocks : List OpenBlock} {e : Event}
    (h : Turned O n (fun names => (Turn.more names phase blocks).noting e) r ls) :
    Reads O n ⟨phase, blocks⟩ (r.note e) ls :=
  h

theorem Turned.eq_of_unexpected {x : Expected}
    (h : Turned O n (fun names => Turn.unexpected names t x) r ls) :
    O = (.error (.unexpectedToken t.text x t.span), ⟨ls, r⟩) :=
  h.2.symm

namespace Follows

/-- **A look ahead of a parser that reads** sees the next token, or that there is none. -/
theorem peek_reads : Follows O k (Reads O n p) Descend.peek fun
    | none => fun r ls => ls = [] ∧ Reads O n p r ls
    | some t => Seen O n p t := by
  refine Follows.peek (fun r h => ⟨rfl, h⟩) fun r l ls h => ?_
  -- The parser that runs comes to the same from the named lexeme.
  refine ⟨⟨h.1, ?_⟩, l, ls, rfl, l.token_token r.names⟩
  rw [Parser.statementFrom_look]
  exact h.2

/-- What has been looked at is seen again. -/
theorem peek_seen : Follows O k (Seen O n p t) Descend.peek fun t? r ls =>
    t? = some t ∧ Seen O n p t r ls := by
  -- What was seen has a lexeme, so something is left.
  refine Follows.peek (fun r h => ?_) fun r l ls h => ?_
  · obtain ⟨-, l, ls, hnil, -⟩ := h
    cases hnil
  · obtain ⟨hreads, l', ls', hcons, htoken⟩ := h
    obtain ⟨rfl, rfl⟩ := List.cons.inj hcons
    -- The lexeme had been named, so a further look names nothing.
    have hlook : r.look l = r := by rw [Reader.look, htoken]
    rw [hlook]
    exact ⟨congrArg (some ·.1) htoken, hreads, l, ls, rfl, htoken⟩

/-- **What has been looked at is taken**, unless the parser that runs would decline it. -/
theorem advance_seen (hd : ∀ names e, (p.step names t).verdict ≠ .decline e) :
    Follows O k (Seen O n p t) Descend.advance fun t? r ls =>
      t? = some t ∧ Turned O (n - 1) (fun names => p.step names t) r ls := by
  refine Follows.advance (fun r h => ?_) fun r l ls h => ?_
  · obtain ⟨-, l, ls, hnil, -⟩ := h
    cases hnil
  -- The first lexeme that is left is that of the token that was seen.
  · obtain ⟨h, l', ls', hcons, htoken⟩ := h
    obtain ⟨rfl, rfl⟩ := List.cons.inj hcons
    have ht : (l.token r.names).1 = t := congrArg (·.1) htoken
    rw [← ht] at hd ⊢
    exact ⟨rfl, h.take hd⟩

end Follows

/-- **A look ahead where the source may not end.** -/
theorem peek_or_end {α : Type} {x : Expected} {f : Token → Descend α} {Q : α → Assertion}
    (hend : p.atEnd = some (.unexpectedEnd x)) (hf : ∀ t, Follows O k (Seen O n p t) (f t) Q) :
    Follows O k (Reads O n p)
      (do
        match ← peek with
        | none => throw (.unexpectedEnd x)
        | some t => f t) Q := by
  refine Follows.peek_reads.bind fun t? => ?_
  cases t? with
  | none =>
    -- At the end of the source the error is the outcome.
    refine Follows.throw fun r ls h => ?_
    obtain ⟨rfl, h⟩ := h
    exact h.eq_of_atEnd hend
  | some t => exact hf t

end Descend

end Reads

end Silly
