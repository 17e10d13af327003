import Silly.Proofs.Descent.Calls
import Silly.Proofs.Grammar.Stops

/-!
# Nothing is scanned that is not needed

A parser by recursive descent looks at a token before it knows who will consume it. An error may come
up with a token in hand that no function has consumed, and that token has been scanned, so its text
has been named. Here it is shown that there is one such token at most, and which one. If an error comes
up, a token has been looked at and not consumed just if the error is about that token and leaves it
where it is (`Descend.Tidy`). So the token of an error is the last one that has been scanned.

This is a property of the functions of the descent alone and says nothing about what they read. It has
a rule for each way in which functions are put together, and the functions that call each other are
proved to have it by induction on a bound for how many lexemes are left.

Together with where the parser that runs stops and what it has named then, it tells which texts a
reading has named, whether or not the source is a program (`names_in_order`).
-/

namespace Silly

/-- How many lexemes are left, that of the lookahead among them. -/
def Descent.size (d : Descent) : Nat := d.rest.length + d.lookahead.toList.length

namespace Descend

/-- **Tidy reading.** If `m` starts where `A` holds and has a result `a`, then `Q a` holds. If it has
an error, then a token has been looked at and not consumed just if the error leaves its token where
it is. -/
def Tidy {α : Type} (A : Descent → Prop) (m : Descend α) (Q : α → Descent → Prop) : Prop :=
  ∀ d result d', A d → m d = some (result, d') →
    match result with
    | .ok a => Q a d'
    | .error e => d'.lookahead.isSome = e.leaves

/-- Fewer than `n` lexemes are left. -/
def Within (n : Nat) (d : Descent) : Prop := d.size < n

/-- No token has been looked at and not consumed. -/
def Clear (n : Nat) (d : Descent) : Prop := d.lookahead = none ∧ Within n d

/-- The token `t` has been looked at. -/
def Ahead (n : Nat) (t : Token) (d : Descent) : Prop := d.lookahead = some t ∧ Within n d

variable {α β : Type} {A A' : Descent → Prop} {m : Descend α} {Q Q' : α → Descent → Prop} {n : Nat}
  {t : Token} {x : Expected} {d : Descent}

theorem Within.mono (h : Within n d) : Within (n + 1) d := Nat.lt_succ_of_lt h

namespace Tidy

/-! ### Rules -/

/-- **A result that is at hand.** -/
theorem pure {a : α} (h : ∀ d, A d → Q a d) : Tidy A (pure a) Q := by
  rintro d result d' hA ⟨⟩
  exact h d hA

/-- **An error** that comes up with a lookahead just if it leaves its token. -/
theorem error {e : ParseError} (h : ∀ d, A d → d.lookahead.isSome = e.leaves) :
    Tidy A (throw e) Q := by
  rintro d result d' hA ⟨⟩
  exact h d hA

/-- **One after the other.** -/
theorem bind {B : α → Descent → Prop} {f : α → Descend β} {Q : β → Descent → Prop}
    (hm : Tidy A m B) (hf : ∀ a, Tidy (B a) (f a) Q) : Tidy A (m >>= f) Q := by
  intro d result d' hA hrun
  -- Without a result of the first there is none of both, so this case does not come up.
  cases hfirst : m d with
  | none =>
    have hnone : (m >>= f) d = none := congrArg (Option.bind · _) hfirst
    rw [hnone] at hrun
    cases hrun
  | some first =>
    obtain ⟨e | a, d₁⟩ := first
    -- An error of the first is the error of both, with what was looked at then.
    · obtain ⟨rfl, rfl⟩ := Prod.mk.inj (Option.some.inj ((run_bind_error hfirst).symm.trans hrun))
      exact hm d (.error e) d₁ hA hfirst
    · exact hf a d₁ result d' (hm d (.ok a) d₁ hA hfirst) ((run_bind hfirst).symm.trans hrun)

theorem mono_left (hA : ∀ d, A' d → A d) (hm : Tidy A m Q) : Tidy A' m Q :=
  fun d result d' hA' hrun => hm d result d' (hA d hA') hrun

/-- More is said of a result. -/
theorem mono_right (hQ : ∀ a d, Q a d → Q' a d) (hm : Tidy A m Q) : Tidy A m Q' := by
  intro d result d' hA hrun
  have h := hm d result d' hA hrun
  cases result with
  | ok a => exact hQ a d' h
  | error => exact h

theorem modifyGet {f : Descent → α × Descent} (h : ∀ d, A d → Q (f d).1 (f d).2) :
    Tidy A (modifyGet f) Q := by
  rintro d result d' hA ⟨⟩
  exact h d hA

theorem note {e : Event} : Tidy (Within n) (note e) fun _ => Within n := by
  rintro d result d' hA ⟨⟩
  exact hA

theorem of_get {f : Descent → Descend α} (h : ∀ d, Tidy A (f d) Q) : Tidy A (get >>= f) Q :=
  fun d result d' hA hrun => h d d result d' hA hrun

theorem within_zero : Tidy (Within 0) m Q := fun _ _ _ h => absurd h (Nat.not_lt_zero _)

/-! ### Tokens -/

/-- **A look ahead.** The token that is seen is the lookahead, and without one there is none. -/
theorem peek : Tidy (Within n) peek fun
    | none => fun d => d.lookahead = none
    | some t => Ahead n t := by
  refine modifyGet fun d hd => ?_
  obtain ⟨ls, lookahead, r, depth⟩ := d
  -- A token that was looked at before stays as it is.
  cases lookahead with
  | some t => exact ⟨rfl, hd⟩
  | none =>
    cases ls with
    | nil => rfl
    | cons l ls => exact ⟨rfl, hd⟩

/-- A token that is consumed is one less, and none has been looked at. -/
theorem advance : Tidy (Within (n + 1)) advance fun
    | none => fun d => d.lookahead = none
    | some _ => Clear n := by
  refine modifyGet fun d hd => ?_
  obtain ⟨ls, lookahead, r, depth⟩ := d
  cases lookahead with
  | some t => exact ⟨rfl, Nat.lt_of_succ_lt_succ hd⟩
  | none =>
    cases ls with
    | nil => rfl
    | cons l ls => exact ⟨rfl, Nat.lt_of_succ_lt_succ hd⟩

theorem advance_ahead : Tidy (Ahead (n + 1) t) Descend.advance fun _ => Clear n := by
  refine modifyGet fun d hd => ?_
  obtain ⟨ls, lookahead, r, depth⟩ := d
  obtain ⟨rfl, hd⟩ := hd
  exact ⟨rfl, Nat.lt_of_succ_lt_succ hd⟩

/-- **A look ahead where the source may not end.** -/
theorem peek_or_end {f : Token → Descend α} (hf : ∀ t, Tidy (Ahead n t) (f t) Q) :
    Tidy (Within n)
      (do
        match ← Descend.peek with
        | none => throw (.unexpectedEnd x)
        | some t => f t) Q := by
  refine peek.bind fun t? => ?_
  cases t? with
  | none => exact error fun d (h : d.lookahead = none) => congrArg Option.isSome h
  | some t => exact hf t

/-- **A token that must follow** is consumed, and where there is none nothing has been looked at. -/
theorem nextOrEnd : Tidy (Within (n + 1)) (nextOrEnd x) fun _ => Clear n := by
  refine advance.bind fun t? => ?_
  cases t? with
  | none => exact error fun d (h : d.lookahead = none) => congrArg Option.isSome h
  | some t => exact pure fun d h => h

/-- An error about a token that has been consumed. -/
theorem error_clear {e : ParseError} (he : e.leaves = false) : Tidy (Clear n) (throw e) Q :=
  error fun d h => by rw [h.1, he, Option.isSome_none]

theorem expect {kind : TokenKind} : Tidy (Within (n + 1)) (expect kind x) fun _ => Clear n := by
  refine nextOrEnd.bind fun t => ?_
  split
  · exact pure fun d h => h
  · exact error_clear rfl

theorem identifier : Tidy (Within (n + 1)) identifier fun _ => Clear n :=
  expect.bind fun _ => pure fun _ h => h

/-! ### Expressions -/

/-- **An integer** has been consumed when it is found to be out of range. -/
theorem integer : Tidy (Clear n) (integer t) fun _ => Within n := by
  unfold Descend.integer
  split
  · exact pure fun _ h => h.2
  · exact error_clear rfl

/-- **A string** has no error. -/
theorem string : Tidy (Clear n) (string t) fun _ => Within n := by
  have hname : Tidy (Clear n)
      (MonadState.modifyGet (Descent.intern t.contents) : Descend Name) fun _ => Within n :=
    modifyGet fun d h => h.2
  exact hname.bind fun _ => pure fun _ h => h

section Step

variable (hexpr : Tidy (Within n) expression fun _ => Within n)

include hexpr

/-- **What stands in parentheses**, one operator and its operands. -/
theorem operation : Tidy (Within n) operation fun _ => Within n := by
  rw [Descend.operation]
  refine peek_or_end fun t => ?_
  split
  -- A unary operator is consumed before its operand is read.
  case h_1 op _ =>
    refine (mono_left (fun d h => ⟨h.1, h.2.mono⟩) advance_ahead).bind fun _ => ?_
    refine (note.mono_left fun d h => h.2).bind fun _ => ?_
    exact hexpr.bind fun _ => pure fun _ h => h
  case h_2 =>
    -- The token that has been looked at is left to the operand, which consumes it or fails with it.
    refine (hexpr.mono_left fun d h => h.2).bind fun left => ?_
    refine (nextOrEnd.mono_left fun d h => h.mono).bind fun t => ?_
    split
    · refine (note.mono_left fun d h => h.2).bind fun _ => ?_
      exact hexpr.bind fun _ => pure fun _ h => h
    · exact error_clear rfl

theorem parenthesized : Tidy (Within n) parenthesized fun _ => Within n := by
  rw [Descend.parenthesized]
  refine (operation hexpr).bind fun e => ?_
  exact (expect.mono_left fun d h => h.mono).bind fun _ => pure fun _ h => h.2

end Step

/-- **An expression**, if parentheses and lists with one lexeme fewer are read tidily. -/
theorem expression_of (hparen : Tidy (Within n) Descend.parenthesized fun _ => Within n)
    (hitems : ∀ before, Tidy (Within n) (items before) fun _ => Within n) :
    Tidy (Within (n + 1)) expression fun _ => Within n := by
  rw [Descend.expression]
  refine nextOrEnd.bind fun t => ?_
  -- By the kind of the first token, which has been consumed whatever it is.
  split
  · exact hparen.mono_left fun d h => h.2
  · exact (hitems []).mono_left fun d h => h.2
  · exact pure fun d h => h.2
  · exact pure fun d h => h.2
  · exact integer
  · exact string
  · exact error_clear rfl

/-- **The items of a list** from some item on. -/
theorem items_of (before : List Expr)
    (hexpr : Tidy (Within (n + 1)) expression fun _ => Within n)
    (hitems : ∀ before, Tidy (Within n) (items before) fun _ => Within n) :
    Tidy (Within (n + 1)) (items before) fun _ => Within (n + 1) := by
  rw [Descend.items]
  refine peek_or_end fun t => ?_
  split
  -- The bracket that ends the list is the lookahead, and it is consumed.
  · exact advance_ahead.bind fun _ => pure fun d h => h.2.mono
  · refine (hexpr.mono_left fun d h => h.2).bind fun e => ?_
    exact (hitems (e :: before)).mono_right fun _ d h => h.mono

/-- **Expressions and lists**, of any number of lexemes. -/
theorem expression_items (n : Nat) :
    (Tidy (Within (n + 1)) expression fun _ => Within n) ∧
      ∀ before, Tidy (Within n) (items before) fun _ => Within n := by
  -- By induction on the bound. There is nothing to show of no lexemes.
  induction n with
  | zero => exact ⟨expression_of within_zero fun _ => within_zero, fun _ => within_zero⟩
  | succ n ih =>
    obtain ⟨hexpr, hitems⟩ := ih
    have hitems' (before) := items_of before hexpr hitems
    -- An operation begins after its parenthesis, so its operands need no more than the lower bound.
    have hoperand := hexpr.mono_right fun _ d h => h.mono
    exact ⟨expression_of (parenthesized hoperand) hitems', hitems'⟩

/-- **An expression** is read tidily, and something is consumed. -/
theorem expression : Tidy (Within (n + 1)) expression fun _ => Within n := (expression_items n).1

/-! ### Statements -/

theorem value : Tidy (Within (n + 1)) value fun _ => Within n :=
  expect.bind fun _ => expression.mono_left fun _ h => h.2.mono

theorem assignment : Tidy (Within (n + 1)) assignment fun _ => Within n :=
  identifier.bind fun _ => (value.mono_left fun _ h => h.2.mono).bind fun _ => pure fun _ h => h

/-- The word `sub` is consumed, also where it may not stand. -/
theorem subWord : Tidy (Ahead (n + 1) t) subWord fun _ => Within n := by
  refine advance_ahead.bind fun t? => ?_
  cases t? with
  | none => exact pure fun d h => h.2
  | some t =>
    -- The word has been consumed before it is found to be in the wrong place.
    refine of_get fun d => ?_
    split
    · exact error_clear rfl
    · exact pure fun d h => h.2

section Step

variable (hblock : ∀ ks before, Tidy (Within n) (blockFrom ks before) fun _ => Within n)
  (hbranches : ∀ before, Tidy (Within n) (branches before) fun _ => Within n)

include hblock

/-- How many blocks are open is no part of what is said. -/
theorem block (ks : List Keyword) : Tidy (Within n) (block ks) fun _ => Within n := by
  intro d result d' hd hrun
  rw [Descend.block] at hrun
  -- The block is read with one more block open, and its errors are those of what it reads.
  obtain ⟨⟨result₁, d₁⟩, hfrom, heq⟩ := Option.bind_eq_some_iff.mp hrun
  cases heq
  exact hblock ks [] { d with depth := d.depth + 1 } result d₁ hd hfrom

/-- What follows the expression of a header. -/
theorem headed {k : Keyword} {ks : List Keyword} {make : Expr → Block → Stmt} :
    Tidy (Within n)
      (do
        let e ← Descend.expression
        let _ ← keyword k
        let (body, _) ← Descend.block ks
        return make e body)
      fun _ => Within n := by
  refine (expression.mono_left fun d h => h.mono).bind fun e => ?_
  refine (expect.mono_left fun d h => h.mono).bind fun _ => ?_
  exact ((block hblock ks).mono_left fun d h => h.2).bind fun _ => pure fun _ h => h

include hbranches

/-- **A statement after its first word**, which has been looked at. -/
theorem statementOf (word : StatementKeyword) :
    Tidy (Ahead (n + 1) t) (statementOf word) fun _ => Within n := by
  unfold Descend.statementOf
  -- Each statement consumes its first word before anything else.
  cases word with
  | var =>
    refine advance_ahead.bind fun _ => ?_
    refine (identifier.mono_left fun d h => h.2.mono).bind fun _ => ?_
    exact (value.mono_left fun d h => h.2.mono).bind fun _ => pure fun _ h => h
  | print =>
    refine advance_ahead.bind fun _ => ?_
    exact (expression.mono_left fun d h => h.2.mono).bind fun _ => pure fun _ h => h
  | call =>
    refine advance_ahead.bind fun _ => ?_
    exact (identifier.mono_left fun d h => h.2.mono).bind fun _ => pure fun _ h => h.2
  | «if» => exact advance_ahead.bind fun _ => (hbranches []).mono_left fun d h => h.2
  | «while» => exact advance_ahead.bind fun _ => (headed hblock).mono_left fun d h => h.2
  | «repeat» => exact advance_ahead.bind fun _ => (headed hblock).mono_left fun d h => h.2
  | sub =>
    refine subWord.bind fun _ => (identifier.mono_left fun d h => h.mono).bind fun _ => ?_
    exact ((block hblock _).mono_left fun d h => h.2).bind fun _ => pure fun _ h => h
  | exit | «break» => exact advance_ahead.bind fun _ => pure fun d h => h.2

omit hbranches in
/-- **The branches of an `if`** from some branch on. -/
theorem branches_of (before : List (Expr × Block))
    (hbranches : ∀ before, Tidy (Within n) (branches before) fun _ => Within n) :
    Tidy (Within (n + 1)) (branches before) fun _ => Within (n + 1) := by
  rw [Descend.branches]
  refine expression.bind fun cond => (expect.mono_left fun d h => h.mono).bind fun _ => ?_
  refine ((block hblock _).mono_left fun d h => h.2).bind fun body => ?_
  obtain ⟨body, k⟩ := body
  dsimp only
  -- By the keyword that has ended the body, there is a further branch, a last one, or none.
  split
  · exact (hbranches _).mono_right fun _ d h => h.mono
  · exact (block hblock _).bind fun _ => pure fun d h => h.mono
  · exact pure fun d h => h.mono

end Step

/-- **The statements of a block** from some statement on. -/
theorem blockFrom_of {ks : List Keyword} (before : List Stmt)
    (hstmt : Tidy (Within (n + 1)) statement fun _ => Within n)
    (hblock : ∀ before, Tidy (Within n) (blockFrom ks before) fun _ => Within n) :
    Tidy (Within (n + 1)) (blockFrom ks before) fun _ => Within (n + 1) := by
  rw [Descend.blockFrom]
  refine peek_or_end fun t => ?_
  split
  -- The keyword that ends the block has been looked at, and it is consumed.
  · exact advance_ahead.bind fun _ => pure fun d h => h.2.mono
  · refine (hstmt.mono_left fun d h => h.2).bind fun s => ?_
    exact (hblock (s :: before)).mono_right fun _ d h => h.mono

/-- **A statement**, if what follows its first word is read tidily. -/
theorem statement_of
    (hof : ∀ word t, Tidy (Ahead (n + 1) t) (Descend.statementOf word) fun _ => Within n) :
    Tidy (Within (n + 1)) statement fun _ => Within n := by
  rw [Descend.statement]
  refine peek_or_end fun t => ?_
  -- The note about a statement that has been read comes last and is no error.
  have hnote (s : Stmt) : Tidy (Within n)
      (do
        Descend.note (.parsedStatement t.text t.span.start)
        return s) fun _ => Within n :=
    note.bind fun _ => pure fun _ h => h
  dsimp only
  split
  · exact (hof _ t).bind hnote
  · exact (assignment.mono_left fun d h => h.2).bind hnote
  · -- This is the one error that comes up with a token that has been looked at, and it leaves it.
    exact bind (B := fun _ => Within n) (error fun d h => congrArg Option.isSome h.1) hnote

/-- **Statements and blocks**, of any number of lexemes. -/
theorem statements_blocks (n : Nat) :
    (Tidy (Within (n + 1)) statement fun _ => Within n) ∧
      (∀ ks before, Tidy (Within n) (blockFrom ks before) fun _ => Within n) ∧
      ∀ before, Tidy (Within n) (branches before) fun _ => Within n := by
  -- By induction on the bound. Each statement consumes its first token before a block of it is read.
  induction n with
  | zero =>
    refine ⟨statement_of fun word t => ?_, fun _ _ => within_zero, fun _ => within_zero⟩
    exact statementOf (fun _ _ => within_zero) (fun _ => within_zero) word
  | succ n ih =>
    obtain ⟨hstmt, hblock, hbranches⟩ := ih
    have hblock' (ks before) := blockFrom_of before hstmt (hblock ks)
    have hbranches' (before) := branches_of hblock before hbranches
    exact ⟨statement_of fun word t => statementOf hblock' hbranches' word, hblock', hbranches'⟩

/-! ### Programs -/

/-- If there is a statement, something is consumed. -/
theorem next : Tidy (Within (n + 1)) next fun s? d => s?.isSome → Within n d := by
  -- Whether a token is left is asked by a look ahead, which leaves it.
  have hmore : Tidy (Within (n + 1)) (MonadState.modifyGet Descent.hasNext : Descend Bool)
      fun more d => more → Within (n + 1) d := by
    refine peek.bind (f := fun t? => Pure.pure t?.isSome) fun t? => ?_
    cases t? with
    | none => exact pure fun _ _ h => absurd h Bool.false_ne_true
    | some t => exact pure fun d h _ => h.2
  rw [Descend.next]
  refine hmore.bind fun more => ?_
  cases more with
  | true =>
    refine ((statements_blocks n).1.mono_left fun d h => h rfl).bind fun s => ?_
    exact pure fun d h _ => h
  | false => exact pure fun _ _ h => absurd h Bool.false_ne_true

/-- **All statements that are left.** -/
theorem programFrom (before : List Stmt) :
    Tidy (Within n) (programFrom before) fun _ _ => True := by
  -- By induction on how many lexemes are left, of which each statement consumes one at least.
  induction n generalizing before with
  | zero => exact within_zero
  | succ n ih =>
    rw [Descend.programFrom]
    refine next.bind fun s? => ?_
    cases s? with
    | some s => exact (ih (s :: before)).mono_left fun d h => h rfl
    | none =>
      rintro d result d' - ⟨⟩
      trivial

end Tidy

/-- **An error of a program is about the last token that was scanned.** It is the lookahead just if
the error leaves it where it is. -/
theorem isSome_lookahead {d' : Descent} {e : ParseError} (h : program d = some (.error e, d')) :
    d'.lookahead.isSome = e.leaves :=
  Tidy.programFrom [] d _ d' (Nat.lt_succ_self d.size) h

end Descend

/-! ### The names of a reading -/

/-- The texts of a table of names that has been given the words of the language and then `ss`. -/
def textsAfter (ss : List String) : List String :=
  Interner.initialTexts ++ TextTable.newTexts Interner.initialTexts ss

theorem texts_internAll_initial (ss : List String) :
    (Interner.initial.internAll ss).texts = textsAfter ss := by
  rw [Interner.texts_internAll, Interner.texts_initial, textsAfter]

/-- **What has not been scanned** is what is left, but for the lexeme of the lookahead. -/
theorem Descent.Left.rest_eq {d : Descent} {ls : List Lexeme} (h : d.Left ls) :
    d.rest = if d.lookahead.isSome then ls.tail else ls := by
  obtain ⟨rest, lookahead, reader, depth⟩ := d
  cases lookahead with
  | none => exact h.symm
  | some t =>
    obtain ⟨l, rfl, -⟩ := h
    rfl

/-- **A reading numbers names in order of first appearance, and scans no more than it must.** A table
of names starts with 20 texts. If the source is a program, there come the new ones among the texts of
its tokens, each string literal followed by what it has in quotes, in order. So it is if the source
ends too early. Any other error is about a token, and then there come the new ones of the tokens before
it and the text of that token, and no token after it has been scanned. -/
theorem names_in_order (source : String) :
    ∃ d, Descend.program (.ofSource source .initial) = some ((parse source .initial).1, d) ∧
      d.reader.names = (parse source .initial).2 ∧
      Interner.initialTexts.length = 20 ∧
      (∀ (i : Nat) s, d.reader.names.texts[i]? = some s → d.reader.names.nameOf s = ⟨i⟩) ∧
      match (parse source .initial).1 with
      | .ok _ | .error (.unexpectedEnd _) =>
        d.reader.names.texts =
            textsAfter ((tokenize source .initial).1.flatMap Token.namedTexts) ∧
          d.rest = []
      | .error e => ∃ k t, (tokenize source .initial).1[k]? = some t ∧ e.IsAbout t ∧
        d.reader.names.texts = textsAfter
          (((tokenize source .initial).1.take k).flatMap Token.namedTexts ++ [t.text]) ∧
        d.rest = (lexemes source).drop (k + 1) := by
  let tokens := (tokenize source .initial).1
  -- The descent answers as the parser that runs, and has named what that has named.
  obtain ⟨d, hrun, hstands⟩ := (Descent.Stands.ofSource source .initial).program
  have hnames : d.reader.names = (parse source .initial).2 := congrArg (·.names) hstands.reader
  refine ⟨d, hrun, hnames, by decide, fun i s hi => ?_, ?_⟩
  · refine Interner.nameOf_of_text? ?_
    simpa [Interner.texts, Interner.text?, TextTable.text?] using hi
  -- A source whose tokens are all read, whether or not more is due at its end.
  have hreached {gs} (h : Goal.advanceAll [] tokens = .ok gs) :
      d.reader.names.texts = textsAfter (tokens.flatMap Token.namedTexts) ∧ d.rest = [] := by
    obtain ⟨hrest, -, hread⟩ := program_of_reached h
    have hleft : d.Left [] := hrest ▸ hstands.left
    refine ⟨by rw [hnames, hread, texts_internAll_initial], ?_⟩
    rw [hleft.eq_of_nil]
  cases hresult : (parse source .initial).1 with
  | ok p => exact hreached (exists_parse_eq_ok_iff.mp ⟨p, hresult⟩)
  -- The source ends too early or a token is refused.
  | error e =>
    rcases parse_error_cases hresult with ⟨g, gs, hdue, rfl⟩ | ⟨k, t, gs, ht, hbefore, hrefused⟩
    · exact hreached hdue
    · have habout := Goal.isAbout_of_advance hrefused
      obtain ⟨hrest, -, hread⟩ := program_of_refused ht hbefore hrefused
      -- The descent has this result, so the token that it has looked at is told by the error.
      have hlookahead : d.lookahead.isSome = e.leaves := by
        refine Descend.isSome_lookahead (hrun.trans ?_)
        exact congrArg (fun result => some (result, d)) hresult
      -- The token of the error has been scanned, as the lookahead or because it was consumed.
      have hscanned : d.rest = (lexemes source).drop (k + 1) := by
        rw [hstands.left.rest_eq, hlookahead, hrest]
        cases e.leaves <;> simp
      have htexts : d.reader.names.texts =
          textsAfter ((tokens.take k).flatMap Token.namedTexts ++ [t.text]) := by
        rw [hnames, hread, texts_internAll_initial]
      -- The end of the source is about no token, so it is no error of this kind.
      cases e with
      | unexpectedEnd x => cases habout.1
      | _ => exact ⟨k, t, ht, habout, htexts, hscanned⟩

/-- A parenthesis that begins no expression: the string before it has been named in two ways, and the
name after it in none. -/
theorem names_in_order_refused :
    let source := "x gets [\"y\" ) z"
    let e : ParseError := .unexpectedToken ")" .expression ⟨12, 13⟩
    (parse source .initial).1 = .error e ∧
      ∃ d, Descend.program (.ofSource source .initial) = some (.error e, d) ∧
        ∃ k t, (tokenize source .initial).1[k]? = some t ∧ e.IsAbout t ∧
          d.reader.names.texts = textsAfter
            (((tokenize source .initial).1.take k).flatMap Token.namedTexts ++ [t.text]) ∧
          d.rest = (lexemes source).drop (k + 1) := by
  intro source e
  have h : (parse source .initial).1 = .error e := parse_eq_error_iff.mpr (by decide +kernel)
  obtain ⟨d, hrun, -, -, -, hnames⟩ := names_in_order source
  rw [h] at hrun hnames
  exact ⟨h, d, hrun, hnames⟩

end Silly
