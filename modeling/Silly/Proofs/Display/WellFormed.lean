import Silly.Proofs.Grammar.Completeness
import Silly.Proofs.Lexing.Cut

/-!
# Well-formed trees

A tree can hold more than any source can say: a variable without a name, a string with a quote in
it, a subroutine inside a loop. The well-formed trees are the ones without such things.

Every tree that a source is read into is well formed (`wellFormed_of_parse`). The tokens of the
source derive the tree, so each of its names is the name of an identifier token's text or of a
literal's contents. An identifier token has the text of an identifier, and the contents of a literal
are free of quotes and line breaks, as the literal ends with the first of these.
-/

namespace Silly

/-- The name of an identifier. -/
def Interner.IsIdentifier (names : Interner) (x : Name) : Prop :=
  ∃ s, names.text? x = some s ∧ TokenKind.ofText s = .identifier

/-- The name of a text that can stand between quotes. -/
def Interner.IsContents (names : Interner) (x : Name) : Prop :=
  ∃ s, names.text? x = some s ∧ Unquoted s.toList

section WellFormed

variable (names : Interner)

mutual
/-- **A well-formed expression**: its variables are identifiers, and its strings can stand between
quotes. Integers are in range by their type. -/
def Expr.WellFormed : Expr → Prop
  | .int _ | .bool _ => True
  | .str s => names.IsContents s
  | .var x => names.IsIdentifier x
  | .list es => itemsWellFormed es
  | .unary _ e => e.WellFormed
  | .binary _ l r => l.WellFormed ∧ r.WellFormed

/-- Every item of a list is well formed. -/
def itemsWellFormed : List Expr → Prop
  | [] => True
  | e :: es => e.WellFormed ∧ itemsWellFormed es
end

mutual
/-- **A well-formed statement within a block.** An `if` has a branch, and there are no
subroutines. -/
def Stmt.WellFormed : Stmt → Prop
  | .assign x e | .declare x e => names.IsIdentifier x ∧ e.WellFormed names
  | .print e => e.WellFormed names
  | .ifElse arms => arms.branches ≠ [] ∧ arms.WellFormed
  | .whileDo e body | .repeatTimes e body => e.WellFormed names ∧ blockWellFormed body
  | .sub .. => False
  | .call x => names.IsIdentifier x
  | .exit | .breakLoop => True

/-- Every condition and every body of a chain of arms is well formed. -/
def Arms.WellFormed : Arms → Prop
  | .done => True
  | .otherwise body => blockWellFormed body
  | .arm c body rest => c.WellFormed names ∧ blockWellFormed body ∧ rest.WellFormed

/-- Every statement of a block is well formed. -/
def blockWellFormed : List Stmt → Prop
  | [] => True
  | s :: ss => s.WellFormed ∧ blockWellFormed ss
end

/-- **A well-formed statement at the top level**, where subroutines may stand. -/
def Stmt.TopWellFormed : Stmt → Prop
  | .sub x body => names.IsIdentifier x ∧ blockWellFormed names body
  | s => s.WellFormed names

/-- **A well-formed program.** -/
def Program.WellFormed (p : Program) : Prop := ∀ s ∈ p, s.TopWellFormed names

end WellFormed

variable {names names' : Interner}

theorem Stmt.WellFormed.top {s : Stmt} (h : s.WellFormed names) : s.TopWellFormed names := by
  cases s with
  | sub => exact h.elim
  | _ => exact h

/-- The statements of a well-formed block may stand at the top level. -/
theorem wellFormed_of_block {ss : List Stmt} (h : blockWellFormed names ss) :
    Program.WellFormed names ss := by
  induction ss with
  | nil => exact fun s hs => absurd hs List.not_mem_nil
  | cons s ss ih => exact List.forall_mem_cons.mpr ⟨h.1.top, ih h.2⟩

/-! ### Names that are added -/

theorem Interner.IsIdentifier.of_extends {x : Name} (he : names.Extends names')
    (h : names.IsIdentifier x) : names'.IsIdentifier x := by
  obtain ⟨s, hx, hs⟩ := h
  exact ⟨s, Interner.text?_of_extends he hx, hs⟩

theorem Interner.IsContents.of_extends {x : Name} (he : names.Extends names')
    (h : names.IsContents x) : names'.IsContents x := by
  obtain ⟨s, hx, hs⟩ := h
  exact ⟨s, Interner.text?_of_extends he hx, hs⟩

-- A tree that is well formed over a table is so over every table that has grown from it.
mutual
/-- A well-formed expression stays so. -/
theorem Expr.WellFormed.of_extends (he : names.Extends names') :
    ∀ {e : Expr}, e.WellFormed names → e.WellFormed names'
  | .int _, _ | .bool _, _ => trivial
  | .str _, h => Interner.IsContents.of_extends he h
  | .var _, h => Interner.IsIdentifier.of_extends he h
  | .list _, h => itemsWellFormed_of_extends he h
  | .unary _ e, h => Expr.WellFormed.of_extends (e := e) he h
  | .binary _ _ _, h => ⟨h.1.of_extends he, h.2.of_extends he⟩

/-- So do the items of a list. -/
theorem itemsWellFormed_of_extends (he : names.Extends names') :
    ∀ {es : List Expr}, itemsWellFormed names es → itemsWellFormed names' es
  | [], _ => trivial
  | _ :: _, h => ⟨h.1.of_extends he, itemsWellFormed_of_extends he h.2⟩
end

mutual
/-- A well-formed statement within a block stays so. -/
theorem Stmt.WellFormed.of_extends (he : names.Extends names') :
    ∀ {s : Stmt}, s.WellFormed names → s.WellFormed names'
  | .assign .., h | .declare .., h => ⟨h.1.of_extends he, h.2.of_extends he⟩
  | .print _, h => Expr.WellFormed.of_extends he h
  | .ifElse _, h => ⟨h.1, h.2.of_extends he⟩
  | .whileDo .., h | .repeatTimes .., h =>
    ⟨h.1.of_extends he, blockWellFormed_of_extends he h.2⟩
  | .call _, h => Interner.IsIdentifier.of_extends he h
  | .exit, _ | .breakLoop, _ => trivial

/-- So does a chain of arms. -/
theorem Arms.WellFormed.of_extends (he : names.Extends names') :
    ∀ {arms : Arms}, arms.WellFormed names → arms.WellFormed names'
  | .done, _ => trivial
  | .otherwise _, h => blockWellFormed_of_extends he h
  | .arm .., h =>
    ⟨h.1.of_extends he, blockWellFormed_of_extends he h.2.1, h.2.2.of_extends he⟩

/-- So does a block. -/
theorem blockWellFormed_of_extends (he : names.Extends names') :
    ∀ {ss : List Stmt}, blockWellFormed names ss → blockWellFormed names' ss
  | [], _ => trivial
  | _ :: _, h => ⟨h.1.of_extends he, blockWellFormed_of_extends he h.2⟩
end

/-! ### Derived trees -/

/-- What the names have to say of a token that derives a part of a tree. -/
def Token.Settled (names : Interner) (t : Token) : Prop :=
  (t.kind = .identifier → names.IsIdentifier (names.nameOf t.text)) ∧
    (t.kind = .string → names.IsContents (names.nameOf t.contents))

-- The tokens of a part are among those of the whole, so they are settled as well.
mutual
/-- **Settled tokens derive well-formed expressions.** -/
theorem DerivesExpr.wellFormed {us : List Token} {e : Expr} (h : ∀ t ∈ us, t.Settled names) :
    DerivesExpr names.nameOf us e → e.WellFormed names
  | .var hk => (h _ List.mem_cons_self).1 hk
  | .int .. | .bool .. => trivial
  | .str hk => (h _ List.mem_cons_self).2 hk
  | .unary (e := e) _ _ he _ =>
    show e.WellFormed names from he.wellFormed fun t ht => h t (by simp [ht])
  | .binary _ h₁ _ h₂ _ =>
    ⟨h₁.wellFormed fun t ht => h t (by simp [ht]), h₂.wellFormed fun t ht => h t (by simp [ht])⟩
  | .list _ hes _ => hes.wellFormed fun t ht => h t (by simp [ht])

/-- The same of the items of a list. -/
theorem DerivesItems.wellFormed {us : List Token} {es : List Expr}
    (h : ∀ t ∈ us, t.Settled names) : DerivesItems names.nameOf us es → itemsWellFormed names es
  | .nil => trivial
  | .cons he hes =>
    ⟨he.wellFormed fun t ht => h t (by simp [ht]), hes.wellFormed fun t ht => h t (by simp [ht])⟩
end

mutual
/-- **Settled tokens derive well-formed statements.** -/
theorem DerivesStmt.wellFormed {us : List Token} {s : Stmt} (h : ∀ t ∈ us, t.Settled names) :
    DerivesStmt names.nameOf us s → s.WellFormed names
  | .assign hx _ he => ⟨(h _ List.mem_cons_self).1 hx, he.wellFormed fun t ht => h t (by simp [ht])⟩
  | .declare _ hx _ he =>
    ⟨(h _ (by simp)).1 hx, he.wellFormed fun t ht => h t (by simp [ht])⟩
  | .print _ he => he.wellFormed fun t ht => h t (by simp [ht])
  -- There is a branch, as the rule has one.
  | .ifElse _ hc _ hb hr =>
    ⟨by simp [Arms.branches], hc.wellFormed fun t ht => h t (by simp [ht]),
      hb.wellFormed fun t ht => h t (by simp [ht]), hr.wellFormed fun t ht => h t (by simp [ht])⟩
  | .whileDo _ he _ hb _ | .repeatTimes _ he _ hb _ =>
    ⟨he.wellFormed fun t ht => h t (by simp [ht]), hb.wellFormed fun t ht => h t (by simp [ht])⟩
  | .call _ hx => (h _ (by simp)).1 hx
  | .exit _ | .breakLoop _ => trivial

/-- The same of a chain of arms, whose first branch is read before. -/
theorem DerivesArms.wellFormed {us : List Token} {arms : Arms} (h : ∀ t ∈ us, t.Settled names) :
    DerivesArms names.nameOf us arms → arms.WellFormed names
  | .done _ => trivial
  | .otherwise _ hb _ => hb.wellFormed fun t ht => h t (by simp [ht])
  | .arm _ hc _ hb hr =>
    ⟨hc.wellFormed fun t ht => h t (by simp [ht]), hb.wellFormed fun t ht => h t (by simp [ht]),
      hr.wellFormed fun t ht => h t (by simp [ht])⟩

/-- The same of a block. -/
theorem DerivesBlock.wellFormed {us : List Token} {ss : List Stmt}
    (h : ∀ t ∈ us, t.Settled names) : DerivesBlock names.nameOf us ss → blockWellFormed names ss
  | .nil => trivial
  | .cons hs hss =>
    ⟨hs.wellFormed fun t ht => h t (by simp [ht]), hss.wellFormed fun t ht => h t (by simp [ht])⟩
end

/-- The same of a statement at the top level, which may be a subroutine. -/
theorem DerivesTop.wellFormed {us : List Token} {s : Stmt} (h : ∀ t ∈ us, t.Settled names)
    (hs : DerivesTop names.nameOf us s) : s.TopWellFormed names := by
  cases hs with
  | stmt hs => exact (hs.wellFormed h).top
  | sub _ hx hb _ =>
    exact ⟨(h _ (by simp)).1 hx, hb.wellFormed fun t ht => h t (by simp [ht])⟩

/-- **Tokens with settled names derive well-formed programs.** -/
theorem DerivesProgram.wellFormed {us : List Token} {p : Program} (h : ∀ t ∈ us, t.Settled names)
    (hp : DerivesProgram names.nameOf us p) : Program.WellFormed names p := by
  -- By induction on the derivation, which has one statement after the other.
  induction hp with
  | nil => exact fun s hs => absurd hs List.not_mem_nil
  | cons hs _ ih =>
    intro s' hs'
    rcases List.mem_cons.mp hs' with rfl | hs'
    · exact hs.wellFormed fun t ht => h t (by simp [ht])
    · exact ih (fun t ht => h t (by simp [ht])) s' hs'

/-! ### The names of a reading -/

/-- A string literal is either an error where it stands, or its contents are named. -/
theorem Fragment.step_string (p : Fragment) (names : Interner) {t : Token} (hk : t.kind = .string) :
    (∃ e, (p.step names t).verdict = .reject e ∨ (p.step names t).verdict = .decline e) ∨
      (p.step names t).names = (names.intern t.contents).2 := by
  obtain ⟨phase, bs⟩ := p
  -- Only where an expression is needed does a string literal stand, and there its contents are named.
  cases phase with
  | between => exact .inl ⟨_, .inr (by simp [step, stepBetween, hk, Turn.unknown]; rfl)⟩
  | within o need =>
    cases need with
    | expression => exact .inr (by simp [step, stepWithin, stepExpression, hk])
    | _ => exact .inl ⟨_, .inl (by simp [step, stepWithin, hk, Turn.unexpected]; rfl)⟩

/-- The text between the quotes of a lexeme. -/
def Lexeme.contents (l : Lexeme) : String := String.ofList (l.text.toList.drop 1).dropLast

/-- Whether the text of a lexeme has a name, and its contents too if it is a string literal. -/
def Interner.HoldsLexeme (names : Interner) (l : Lexeme) : Prop :=
  names.Holds l.text ∧ (l.kind = .string → names.Holds l.contents)

theorem Interner.HoldsLexeme.of_extends {l : Lexeme} (he : names.Extends names')
    (h : names.HoldsLexeme l) : names'.HoldsLexeme l :=
  ⟨h.1.of_extends he, fun hk => (h.2 hk).of_extends he⟩

/-- **A lexeme that is read without an error is named**, and so are its contents. -/
theorem Reader.holds_feed (r : Reader) (p : Fragment) (l : Lexeme)
    (h : ∀ e, (r.feed p l).1 ≠ .reject e ∧ (r.feed p l).1 ≠ .decline e) :
    (r.feed p l).2.names.HoldsLexeme l := by
  rw [(r.feed_eq p l).1] at h
  rw [(r.feed_eq p l).2]
  constructor
  -- The text has been named when the token was made, and the step has only added to the names.
  · exact (Interner.holds_intern r.names l.text).of_extends (p.extends_step _)
  · intro hk
    -- The step has named the contents, or it came to an error, and it did not.
    rcases p.step_string (l.token r.names).2 (t := (l.token r.names).1) hk with ⟨e, he⟩ | hnames
    · rcases he with he | he
      · exact absurd he (h e).1
      · exact absurd he (h e).2
    · rw [hnames]
      exact Interner.holds_intern _ _

/-- **A parser that has read a program has named every lexeme.** -/
theorem Parser.holds_programFrom {p : Fragment} {before : List Stmt} {r : Reader}
    {ls : List Lexeme} {prog : Program} (h : (programFrom p before r ls).1 = .ok prog) :
    ∀ l ∈ ls, (programFrom p before r ls).2.names.HoldsLexeme l := by
  -- By induction on the lexemes, where what is named for one of them stays.
  induction ls generalizing p before r with
  | nil => exact fun l hl => absurd hl List.not_mem_nil
  | cons l ls ih =>
    have hl := r.holds_feed p l
    rw [programFrom] at h ⊢
    split at h
    · next p' r' hr =>
      rw [hr] at hl
      -- What was named for this lexeme is kept to the end of the reading.
      exact List.forall_mem_cons.mpr
        ⟨(hl (by simp)).of_extends (extends_programFrom p' before r' ls), ih h⟩
    · next s r' hr =>
      rw [hr] at hl
      exact List.forall_mem_cons.mpr
        ⟨(hl (by simp)).of_extends (extends_programFrom .start (s :: before) r' ls), ih h⟩
    · cases h
    · cases h

/-! ### Parsed trees -/

/-- A token of a row of lexemes has the kind and the text of one of them. -/
theorem exists_of_mem_tokensOf {ls : List Lexeme} {t : Token} (h : t ∈ (tokensOf ls names).1) :
    ∃ l ∈ ls, t.kind = l.kind ∧ t.text = l.text := by
  -- By induction on the lexemes. The names of the table do not matter to kind and text.
  induction ls generalizing names with
  | nil => cases h
  | cons l ls ih =>
    rcases List.mem_cons.mp h with rfl | h
    · exact ⟨l, List.mem_cons_self, rfl, rfl⟩
    · obtain ⟨l', hl', heq⟩ := ih h
      exact ⟨l', List.mem_cons_of_mem l hl', heq⟩

/-- **The names are settled for every token of a source that is read**, whatever names the tokens
have themselves. -/
theorem settled_of_parse {source : String} {p : Program} (h : parse source names = (.ok p, names'))
    (before : Interner) : ∀ t ∈ (tokenize source before).1, t.Settled names' := by
  intro t ht
  -- The token is that of a lexeme, and the reading has named its text and its contents.
  obtain ⟨l, hl, hkind, htext⟩ := exists_of_mem_tokensOf ht
  have hholds : names'.HoldsLexeme l := by
    have hread : (parse source names).2.HoldsLexeme l :=
      Parser.holds_programFrom (congrArg Prod.fst h) l hl
    rwa [h] at hread
  -- An identifier's text is an identifier, as the kind of a token follows from its text.
  constructor
  · intro hk
    refine ⟨l.text, htext ▸ hholds.1, ?_⟩
    rw [← hk, hkind]
    rfl
  · intro hk
    have hk' : l.kind = .string := hkind ▸ hk
    have hcontents : t.contents = l.contents := by rw [Token.contents, htext, Lexeme.contents]
    refine ⟨l.contents, hcontents ▸ hholds.2 hk', ?_⟩
    -- The contents stand between the quotes of a literal as it was cut.
    obtain ⟨body, hbody, hl'⟩ :=
      (lexes_lexemes source).string_inv (List.mem_map_of_mem hl) hk'
    simpa [Lexeme.contents, hl'] using hbody

/-- **Every tree that is read is well formed.** -/
theorem wellFormed_of_parse {source : String} {p : Program}
    (h : parse source names = (.ok p, names')) : Program.WellFormed names' p := by
  -- The tokens derive the tree with the names of the reading, and these are settled.
  have hp := parse_eq_ok_iff.mp (congrArg Prod.fst h)
  rw [h] at hp
  exact hp.wellFormed (settled_of_parse h names)

end Silly
