import Silly.Proofs.Descent.Follows
import Silly.Proofs.Environment.History
import Silly.Proofs.Grammar.Completeness
import Silly.Proofs.Grammar.Viable

/-!
# Looking ahead loses no token

Whoever reads a stream may look at the next token before taking it, as often as it likes and also
past the end. The stream that runs (`TokenStream`) looks at a lexeme by naming its text, and names it
once more when the token is taken. A stream that scans each lexeme once, as a parser by recursive
descent has it (`Descent`), must keep the token that it has scanned and not given away. Here both are
put to the same uses (`StreamUse`), and both answer as a reader would that has all tokens in a row and
a finger on the next one (`StreamUse.ticket`).

What carries this is where a stream is after it has given away `k` tokens (`Descent.Streaming`). It has
scanned `k` lexemes, or one more and then that one's token is kept, and it has named the texts of just
the lexemes that it has scanned. A use leads from one such point to another one
(`Descent.Streaming.use`), whichever uses there were before.
-/

namespace Silly

/-- **One use of a stream of tokens.** -/
inductive StreamUse
  /-- To look at the next token, which stays. -/
  | peek
  /-- To ask whether a token is left. -/
  | hasNext
  /-- To take the next token. -/
  | next
  /-- A step of an iteration over the stream, which takes the next token. -/
  | iterate

/-- **What a use of a stream answers.** -/
inductive StreamAnswer
  | token (t? : Option Token)
  | more (more : Bool)

namespace StreamUse

/-- Whether the use takes a token. -/
def takes : StreamUse → Bool
  | peek | hasNext => false
  | next | iterate => true

/-- **The use of a row of tokens of which `k` have been taken.** -/
def ticket (tokens : List Token) (k : Nat) : StreamUse → StreamAnswer × Nat
  | peek => (.token tokens[k]?, k)
  | hasNext => (.more (k < tokens.length), k)
  | next | iterate => (.token tokens[k]?, min (k + 1) tokens.length)

/-- The tokens that a row of uses has taken, by their answers. -/
def taken : List StreamUse → List StreamAnswer → List Token
  | u :: us, .token (some t) :: as => if u.takes then t :: taken us as else taken us as
  | _ :: us, _ :: as => taken us as
  | _, _ => []

end StreamUse

/-- **One use of the stream that runs.** -/
def TokenStream.use (s : TokenStream) : StreamUse → StreamAnswer × TokenStream
  | .peek => (.token s.peek.1, s.peek.2)
  | .hasNext => (.more s.hasNext.1, s.hasNext.2)
  | .next | .iterate => (.token s.next.1, s.next.2)

/-- **One use of the tokens of a descent.** -/
def Descent.use (d : Descent) : StreamUse → StreamAnswer × Descent
  | .peek => (.token d.peek.1, d.peek.2)
  | .hasNext => (.more d.hasNext.1, d.hasNext.2)
  | .next | .iterate => (.token d.nextToken.1, d.nextToken.2)

variable {ls : List Lexeme} {names : Interner} {k : Nat} {l : Lexeme} {us : List StreamUse}

/-! ### The names of scanned lexemes -/

/-- The names after the first `k` lexemes have been scanned. -/
def namesAt (ls : List Lexeme) (names : Interner) (k : Nat) : Interner :=
  names.internAll ((ls.take k).map (·.text))

theorem namesAt_succ (hl : ls[k]? = some l) :
    namesAt ls names (k + 1) = (l.token (namesAt ls names k)).2 := by
  rw [namesAt, List.take_add_one, hl, List.map_append, Interner.internAll_append]
  rfl

/-- **A token has the name that its text is given** after the texts before it. -/
theorem getElem?_tokensOf (ls : List Lexeme) (names : Interner) (k : Nat) :
    (tokensOf ls names).1[k]? = ls[k]?.map fun l => (l.token (namesAt ls names k)).1 := by
  -- By induction on the lexemes, where the names begin with those after the first one.
  induction ls generalizing names k with
  | nil => rfl
  | cons l ls ih =>
    cases k with
    | zero => rfl
    | succ k =>
      simp only [tokensOf, List.getElem?_cons_succ, ih]
      rfl

/-! ### A stream that keeps the token it has scanned -/

/-- **A stream of which `k` tokens have been taken.** It has scanned their lexemes, or one more, and
in this case it keeps that one's token. It has named what it has scanned. -/
inductive Descent.Streaming (ls : List Lexeme) (names : Interner) (k : Nat) : Descent → Prop
  | idle (r : Reader) (depth : Nat) : k ≤ ls.length → r.names = namesAt ls names k →
      Streaming ls names k ⟨ls.drop k, none, r, depth⟩
  | ahead (l : Lexeme) (r : Reader) (depth : Nat) : ls[k]? = some l →
      r.names = namesAt ls names (k + 1) →
      Streaming ls names k
        ⟨ls.drop (k + 1), some (l.token (namesAt ls names k)).1, r, depth⟩

namespace Descent

variable {d : Descent} {r : Reader}

theorem drop_of_getElem? (hl : ls[k]? = some l) : ls.drop k = l :: ls.drop (k + 1) := by
  obtain ⟨hk, rfl⟩ := List.getElem?_eq_some_iff.mp hl
  exact List.drop_eq_getElem_cons hk

theorem streaming_ofLexemes (ls : List Lexeme) (names : Interner) :
    (ofLexemes ls names).Streaming ls names 0 :=
  .idle _ _ (Nat.zero_le _) rfl

/-- **One more lexeme is scanned**, if there is one, and its token becomes the lookahead. -/
theorem streaming_scan (depth : Nat) (hk : k ≤ ls.length) (hr : r.names = namesAt ls names k) :
    (scan ⟨ls.drop k, none, r, depth⟩).1 = (tokensOf ls names).1[k]? ∧
      ({ (scan ⟨ls.drop k, none, r, depth⟩).2 with
          lookahead := (tokensOf ls names).1[k]? } : Descent).Streaming ls names k ∧
      (scan ⟨ls.drop k, none, r, depth⟩).2.Streaming ls names (min (k + 1) ls.length) := by
  rw [getElem?_tokensOf]
  cases hl : ls[k]? with
  -- At the end of the source a scan finds nothing, and the stream stays where it is.
  | none =>
    have hlength : k = ls.length := Nat.le_antisymm hk (List.getElem?_eq_none_iff.mp hl)
    have hend : min (k + 1) ls.length = k := by omega
    have hdrop : ls.drop k = [] := List.drop_eq_nil_of_le (Nat.le_of_eq hlength.symm)
    have hidle : Streaming ls names k ⟨ls.drop k, none, r, depth⟩ := .idle r depth hk hr
    rw [hend]
    rw [hdrop] at hidle ⊢
    exact ⟨rfl, hidle, hidle⟩
  -- The lexeme is named as its token is made, so the names are those of one more.
  | some l =>
    have hlt : k < ls.length := (List.getElem?_eq_some_iff.mp hl).1
    have hnext : min (k + 1) ls.length = k + 1 := by omega
    have hnames : (l.token r.names).2 = namesAt ls names (k + 1) := by rw [hr, namesAt_succ hl]
    rw [hnext, drop_of_getElem? hl]
    refine ⟨?_, ?_, .idle _ depth hlt hnames⟩
    · simp only [scan, hr, Option.map_some]
    · exact .ahead l _ depth hl hnames

namespace Streaming

variable (h : d.Streaming ls names k)

include h

/-- **A look ahead** is at the next token, and takes nothing. -/
theorem peek : d.peek.1 = (tokensOf ls names).1[k]? ∧ d.peek.2.Streaming ls names k := by
  -- The token is scanned now, or it was scanned by a look before and kept.
  cases h with
  | idle r depth hk hr =>
    obtain ⟨htoken, hahead, -⟩ := streaming_scan depth hk hr
    rw [← htoken] at hahead
    exact ⟨htoken, hahead⟩
  | ahead l r depth hl hr =>
    refine ⟨?_, .ahead l r depth hl hr⟩
    rw [getElem?_tokensOf, hl]
    rfl

/-- **The next token is taken**, if there is one. -/
theorem nextToken : d.nextToken.1 = (tokensOf ls names).1[k]? ∧
    d.nextToken.2.Streaming ls names (min (k + 1) (tokensOf ls names).1.length) := by
  rw [length_tokensOf]
  -- The token is scanned now, or the one that was kept is given away.
  cases h with
  | idle r depth hk hr =>
    obtain ⟨htoken, -, hnext⟩ := streaming_scan depth hk hr
    exact ⟨htoken, hnext⟩
  | ahead l r depth hl hr =>
    have hlt : k < ls.length := (List.getElem?_eq_some_iff.mp hl).1
    have hnext : min (k + 1) ls.length = k + 1 := by omega
    rw [hnext, getElem?_tokensOf, hl]
    exact ⟨rfl, .idle r depth hlt hr⟩

/-- **Whether a token is left** is answered by a look ahead. -/
theorem hasNext : d.hasNext.1 = decide (k < (tokensOf ls names).1.length) ∧
    d.hasNext.2.Streaming ls names k := by
  obtain ⟨htoken, hpeek⟩ := h.peek
  have hanswer : d.hasNext.1 = d.peek.1.isSome := rfl
  refine ⟨?_, hpeek⟩
  rw [hanswer, htoken, Bool.eq_iff_iff]
  simp

/-- **One use** is answered as by the row of all tokens, of which as many are taken then. -/
theorem use (u : StreamUse) :
    (d.use u).1 = (u.ticket (tokensOf ls names).1 k).1 ∧
      (d.use u).2.Streaming ls names (u.ticket (tokensOf ls names).1 k).2 := by
  cases u with
  | peek => exact ⟨congrArg StreamAnswer.token h.peek.1, h.peek.2⟩
  | hasNext => exact ⟨congrArg StreamAnswer.more h.hasNext.1, h.hasNext.2⟩
  | next | iterate => exact ⟨congrArg StreamAnswer.token h.nextToken.1, h.nextToken.2⟩

/-- What has been scanned is what has been taken, or one more, and what has been named is what has
been scanned. -/
theorem exists_scanned : ∃ n ≤ ls.length, (n = k ∨ n = k + 1) ∧ d.rest = ls.drop n ∧
    d.reader.names = namesAt ls names n := by
  cases h with
  | idle r depth hk hr => exact ⟨k, hk, .inl rfl, rfl, hr⟩
  | ahead l r depth hl hr => exact ⟨k + 1, (List.getElem?_eq_some_iff.mp hl).1, .inr rfl, rfl, hr⟩

end Streaming

end Descent

/-! ### The stream that runs -/

namespace TokenStream

variable {d : Descent} {s : TokenStream}

/-- **The stream that runs is where a descent is**: it has the lexemes that are left to it, and the
same names. -/
structure Beside (s : TokenStream) (d : Descent) : Prop where
  left : d.Left s.rest
  names : s.names = d.reader.names

/-- **One use** has the same answer, and leaves both at the same place. -/
theorem Beside.use (h : s.Beside d) (u : StreamUse) :
    (s.use u).1 = (d.use u).1 ∧ (s.use u).2.Beside (d.use u).2 := by
  obtain ⟨ls, names⟩ := s
  obtain ⟨hleft, rfl⟩ := h
  -- Nothing is left, and nothing has been looked at.
  cases ls with
  | nil =>
    have hd := Descent.Left.eq_of_nil hleft
    rw [hd]
    cases u <;> exact ⟨rfl, rfl, rfl⟩
  | cons l ls =>
    obtain hd | ⟨t, hd, htoken⟩ := Descent.Left.eq_of_cons hleft
    -- The lexeme has not been scanned. A look names it in both, and a take in both.
    · rw [hd]
      cases u with
      | peek | hasNext => exact ⟨rfl, .of_look l ls _ _, rfl⟩
      | next | iterate => exact ⟨rfl, rfl, rfl⟩
    · -- The token has been scanned, and its lexeme is named for the second time.
      have huse (u) : TokenStream.use ⟨l :: ls, d.reader.names⟩ u =
          match u with
          | .peek => (.token (some t), ⟨l :: ls, d.reader.names⟩)
          | .hasNext => (.more true, ⟨l :: ls, d.reader.names⟩)
          | .next | .iterate => (.token (some t), ⟨ls, d.reader.names⟩) := by
        cases u <;>
          simp [TokenStream.use, TokenStream.peek, TokenStream.hasNext, TokenStream.next, htoken]
      rw [huse, hd]
      cases u with
      | peek | hasNext => exact ⟨rfl, ⟨l, rfl, htoken⟩, rfl⟩
      | next | iterate => exact ⟨rfl, rfl, rfl⟩

end TokenStream

/-! ### Rows of uses -/

namespace StreamUse

variable {u : StreamUse} {tokens : List Token}

/-- A use that takes nothing adds nothing to what was taken. -/
theorem taken_of_stays (hu : u.takes = false) (us : List StreamUse) (a : StreamAnswer)
    (as : List StreamAnswer) : taken (u :: us) (a :: as) = taken us as := by
  rcases a with (- | t) | more
  · rfl
  · simp [taken, hu]
  · rfl

theorem taken_of_takes (hu : u.takes = true) (us : List StreamUse) (t? : Option Token)
    (as : List StreamAnswer) : taken (u :: us) (.token t? :: as) = t?.toList ++ taken us as := by
  cases t? with
  | none => rfl
  | some t => simp [taken, hu]

theorem ticket_of_stays (hu : u.takes = false) : (u.ticket tokens k).2 = k := by
  cases u <;> first | rfl | cases hu

theorem ticket_of_takes (hu : u.takes = true) :
    u.ticket tokens k = (.token tokens[k]?, min (k + 1) tokens.length) := by
  cases u <;> first | rfl | cases hu

/-- **The tokens that are taken are the next ones**, one for each use that takes one, as long as there
are any. -/
theorem taken_ticket (tokens : List Token) (us : List StreamUse) (hk : k ≤ tokens.length) :
    tokens.take k ++ taken us (answers (ticket tokens) k us).1 =
        tokens.take (answers (ticket tokens) k us).2 ∧
      (answers (ticket tokens) k us).2 =
        min (k + us.countP StreamUse.takes) tokens.length := by
  -- By induction on the uses, for any place of the finger.
  induction us generalizing k with
  | nil => simp [answers, taken, hk]
  | cons u us ih =>
    simp only [answers]
    cases hu : u.takes with
    | false =>
      rw [taken_of_stays hu, ticket_of_stays hu, List.countP_cons_of_neg (by simp [hu])]
      exact ih hk
    -- The finger moves on by one unless it is at the end, and then no token is taken.
    | true =>
      obtain ⟨htaken, hcount⟩ := ih (k := min (k + 1) tokens.length) (Nat.min_le_right _ _)
      have hnext : tokens.take k ++ tokens[k]?.toList = tokens.take (min (k + 1) tokens.length) := by
        rw [← List.take_add_one, ← List.take_eq_take_min]
      rw [ticket_of_takes hu, taken_of_takes hu, List.countP_cons_of_pos hu, ← List.append_assoc,
        hnext]
      refine ⟨htaken, hcount.trans ?_⟩
      omega

end StreamUse

/-- **Looking ahead loses, repeats and reorders no token.** Whatever uses there have been of the tokens
of a source, also past its end, those that were taken are the first tokens of the source, in order,
one for each use that takes one until there are none left. The next look ahead shows the token that
the next use would take, and the stream says that there is one just if there is. Of the lexemes as
many have been scanned as tokens were taken, or one more, and what has been added to the names is the
new texts among those that were scanned, in order. The stream that runs has the same answers and the
same names. -/
theorem stream_keeps_tokens (source : String) (names : Interner) (us : List StreamUse) :
    let tokens := (tokenize source names).1
    let as := (answers Descent.use (.ofSource source names) us).1
    let d := (answers Descent.use (.ofSource source names) us).2
    let k := (StreamUse.taken us as).length
    StreamUse.taken us as = tokens.take k ∧
      k = min (us.countP StreamUse.takes) tokens.length ∧
      (d.use .next).1 = .token tokens[k]? ∧
      (d.use .iterate).1 = .token tokens[k]? ∧
      (d.use .peek).1 = .token tokens[k]? ∧
      (d.use .hasNext).1 = .more (k < tokens.length) ∧
      (∃ n ≤ tokens.length, (n = k ∨ n = k + 1) ∧ d.rest = (lexemes source).drop n ∧
        d.reader.names.texts =
          names.texts ++ TextTable.newTexts names.texts ((tokens.take n).map (·.text))) ∧
      (answers TokenStream.use (.ofSource source names) us).1 = as ∧
      (answers TokenStream.use (.ofSource source names) us).2.names = d.reader.names := by
  intro tokens as d k
  -- The descent and the row of all tokens are related at the start, so their answers are the same all
  -- along.
  have hrow : as = (answers (StreamUse.ticket tokens) 0 us).1 ∧
      d.Streaming (lexemes source) names (answers (StreamUse.ticket tokens) 0 us).2 :=
    answers_of_related (R := fun d k => Descent.Streaming (lexemes source) names k d)
      (fun _ _ u h => h.use u) (Descent.streaming_ofLexemes (lexemes source) names) us
  -- The stream that runs is beside the descent at the start, and stays there.
  have hstart : (TokenStream.ofSource source names).Beside (.ofSource source names) := ⟨rfl, rfl⟩
  have hbeside : (answers TokenStream.use (.ofSource source names) us).1 = as ∧
      (answers TokenStream.use (.ofSource source names) us).2.Beside d :=
    answers_of_related (fun _ _ u h => h.use u) hstart us
  obtain ⟨htaken, hcount⟩ := StreamUse.taken_ticket tokens us (Nat.zero_le _)
  rw [List.take_zero, List.nil_append, ← hrow.1] at htaken
  -- The row of all tokens tells how many of them have been taken.
  have hk : (answers (StreamUse.ticket tokens) 0 us).2 = k := by
    have hlength : k = (tokens.take (answers (StreamUse.ticket tokens) 0 us).2).length :=
      congrArg List.length htaken
    rw [hlength, List.length_take, hcount]
    omega
  rw [hk] at htaken hcount
  have hstreaming : d.Streaming (lexemes source) names k := hk ▸ hrow.2
  -- The texts of the tokens are those of the lexemes, so the names can be told by either.
  obtain ⟨n, hn, hscanned, hrest, hnames⟩ := hstreaming.exists_scanned
  have htexts : ((lexemes source).take n).map (·.text) = (tokens.take n).map (·.text) := by
    rw [List.map_take, List.map_take, texts_tokenize]
  refine ⟨htaken, by simpa using hcount, (hstreaming.use .next).1, (hstreaming.use .iterate).1,
    (hstreaming.use .peek).1, (hstreaming.use .hasNext).1, ⟨n, ?_, hscanned, hrest, ?_⟩, hbeside.1,
    hbeside.2.names⟩
  · exact hn.trans_eq (length_tokensOf _ _).symm
  · rw [hnames, namesAt, Interner.texts_internAll, htexts]

end Silly
