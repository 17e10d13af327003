import Silly.Numeral
import Silly.Parser.Step
import Silly.Proofs.Tree.Alike

/-!
# The grammar as a derivation relation

The grammar of programs, said on its own: which rows of tokens derive which trees. Nothing here
reads a source or knows how one is read. A rule looks at a token's kind and, where the tree keeps
some of it, at its text, and never at its place or its name.

So tokens that are alike in kind and text derive the same trees (`DerivesProgram.of_faces`).

A tree holds names where the tokens hold texts, so the relations are over an assignment `name` of
names to texts. Which rows of tokens derive a tree at all does not depend on it
(`DerivesProgram.exists_of_name`).

There is one relation for each category of the grammar.

* `DerivesExpr` and `DerivesItems`: an expression, and the items of a list.
* `DerivesStmt`, `DerivesArms` and `DerivesBlock`: a statement that may stand in a block, what
  follows the first body of an `if`, and the statements of a block. No rule of these is about `sub`.
* `DerivesTop` and `DerivesProgram`: a statement at the top level, where `sub` may stand as well, and
  a program.
-/

namespace Silly

variable (name : String → Name)

/-! ### Expressions -/

mutual
/-- **The tokens of an expression.** -/
inductive DerivesExpr : List Token → Expr → Prop
  | var {t : Token} : t.kind = .identifier → DerivesExpr [t] (.var (name t.text))
  | int {t : Token} {n : Int64} : t.kind = .integer → Numeral.read? t.text = some n →
      DerivesExpr [t] (.int n)
  | str {t : Token} : t.kind = .string → DerivesExpr [t] (.str (name t.contents))
  | bool {t : Token} {b : Bool} : t.kind = .boolean b → DerivesExpr [t] (.bool b)
  | unary {l u r : Token} {op : UnaryOp} {us : List Token} {e : Expr} :
      l.kind = .delimiter .openParen → u.kind = .unary op → DerivesExpr us e →
      r.kind = .delimiter .closeParen → DerivesExpr (l :: u :: (us ++ [r])) (.unary op e)
  | binary {l b r : Token} {op : BinaryOp} {us vs : List Token} {e₁ e₂ : Expr} :
      l.kind = .delimiter .openParen → DerivesExpr us e₁ → b.kind = .binary op →
      DerivesExpr vs e₂ → r.kind = .delimiter .closeParen →
      DerivesExpr (l :: (us ++ b :: (vs ++ [r]))) (.binary op e₁ e₂)
  | list {l r : Token} {us : List Token} {es : List Expr} :
      l.kind = .delimiter .openBracket → DerivesItems us es →
      r.kind = .delimiter .closeBracket → DerivesExpr (l :: (us ++ [r])) (.list es)

/-- The tokens of the items of a list. -/
inductive DerivesItems : List Token → List Expr → Prop
  | nil : DerivesItems [] []
  | cons {us vs : List Token} {e : Expr} {es : List Expr} :
      DerivesExpr us e → DerivesItems vs es → DerivesItems (us ++ vs) (e :: es)
end

/-! ### Statements -/

mutual
/-- **The tokens of a statement** that may stand in a block. -/
inductive DerivesStmt : List Token → Stmt → Prop
  | assign {x g : Token} {us : List Token} {e : Expr} :
      x.kind = .identifier → g.kind = .keyword .gets → DerivesExpr name us e →
      DerivesStmt (x :: g :: us) (.assign (name x.text) e)
  | declare {v x g : Token} {us : List Token} {e : Expr} :
      v.kind = .statement .var → x.kind = .identifier → g.kind = .keyword .gets →
      DerivesExpr name us e → DerivesStmt (v :: x :: g :: us) (.declare (name x.text) e)
  | print {p : Token} {us : List Token} {e : Expr} :
      p.kind = .statement .print → DerivesExpr name us e → DerivesStmt (p :: us) (.print e)
  | ifElse {i t : Token} {us vs ws : List Token} {c : Expr} {body : Block} {rest : Arms} :
      i.kind = .statement .if → DerivesExpr name us c → t.kind = .keyword .then →
      DerivesBlock vs body → DerivesArms ws rest →
      DerivesStmt (i :: (us ++ t :: (vs ++ ws))) (.ifElse (.arm c body rest))
  | whileDo {w d e : Token} {us vs : List Token} {c : Expr} {body : Block} :
      w.kind = .statement .while → DerivesExpr name us c → d.kind = .keyword .do →
      DerivesBlock vs body → e.kind = .keyword .endwhile →
      DerivesStmt (w :: (us ++ d :: (vs ++ [e]))) (.whileDo c body)
  | repeatTimes {w d e : Token} {us vs : List Token} {n : Expr} {body : Block} :
      w.kind = .statement .repeat → DerivesExpr name us n → d.kind = .keyword .times →
      DerivesBlock vs body → e.kind = .keyword .endrepeat →
      DerivesStmt (w :: (us ++ d :: (vs ++ [e]))) (.repeatTimes n body)
  | call {c x : Token} :
      c.kind = .statement .call → x.kind = .identifier → DerivesStmt [c, x] (.call (name x.text))
  | exit {t : Token} : t.kind = .statement .exit → DerivesStmt [t] .exit
  | breakLoop {t : Token} : t.kind = .statement .break → DerivesStmt [t] .breakLoop

/-- **The tokens of an `if` after its first body**, to its end. -/
inductive DerivesArms : List Token → Arms → Prop
  | done {e : Token} : e.kind = .keyword .endif → DerivesArms [e] .done
  | otherwise {l e : Token} {vs : List Token} {body : Block} :
      l.kind = .keyword .else → DerivesBlock vs body → e.kind = .keyword .endif →
      DerivesArms (l :: (vs ++ [e])) (.otherwise body)
  | arm {l t : Token} {us vs ws : List Token} {c : Expr} {body : Block} {rest : Arms} :
      l.kind = .keyword .elseif → DerivesExpr name us c → t.kind = .keyword .then →
      DerivesBlock vs body → DerivesArms ws rest →
      DerivesArms (l :: (us ++ t :: (vs ++ ws))) (.arm c body rest)

/-- The tokens of the statements of a block. -/
inductive DerivesBlock : List Token → List Stmt → Prop
  | nil : DerivesBlock [] []
  | cons {us vs : List Token} {s : Stmt} {ss : List Stmt} :
      DerivesStmt us s → DerivesBlock vs ss → DerivesBlock (us ++ vs) (s :: ss)
end

/-- **The tokens of a statement at the top level.** -/
inductive DerivesTop : List Token → Stmt → Prop
  | stmt {us : List Token} {s : Stmt} : DerivesStmt name us s → DerivesTop us s
  | sub {k x e : Token} {vs : List Token} {body : Block} :
      k.kind = .statement .sub → x.kind = .identifier → DerivesBlock name vs body →
      e.kind = .keyword .endsub → DerivesTop (k :: x :: (vs ++ [e])) (.sub (name x.text) body)

/-- **The tokens of a program.** -/
inductive DerivesProgram : List Token → Program → Prop
  | nil : DerivesProgram [] []
  | cons {us vs : List Token} {s : Stmt} {p : Program} :
      DerivesTop name us s → DerivesProgram vs p → DerivesProgram (us ++ vs) (s :: p)

variable {name}

/-! ### Rows of items and statements -/

-- These three are by induction on the first row: its derivation says where its first part ends.
/-- Two rows of items, one after the other. -/
theorem DerivesItems.append {us vs : List Token} {es es' : List Expr}
    (h : DerivesItems name us es) (h' : DerivesItems name vs es') :
    DerivesItems name (us ++ vs) (es ++ es') := by
  induction es generalizing us with
  | nil =>
    cases h
    exact h'
  | cons e es ih =>
    cases h with
    | cons he hes =>
      rw [List.append_assoc]
      exact .cons he (ih hes)

/-- One more item at the end. -/
theorem DerivesItems.concat {us vs : List Token} {es : List Expr} {e : Expr}
    (h : DerivesItems name us es) (he : DerivesExpr name vs e) :
    DerivesItems name (us ++ vs) (es ++ [e]) := by
  have h' : DerivesItems name (vs ++ []) [e] := .cons he .nil
  rw [List.append_nil] at h'
  exact h.append h'

/-- Two rows of statements, one after the other. -/
theorem DerivesBlock.append {us vs : List Token} {ss ss' : List Stmt}
    (h : DerivesBlock name us ss) (h' : DerivesBlock name vs ss') :
    DerivesBlock name (us ++ vs) (ss ++ ss') := by
  induction ss generalizing us with
  | nil =>
    cases h
    exact h'
  | cons s ss ih =>
    cases h with
    | cons hs hss =>
      rw [List.append_assoc]
      exact .cons hs (ih hss)

/-- One more statement at the end. -/
theorem DerivesBlock.concat {us vs : List Token} {ss : List Stmt} {s : Stmt}
    (h : DerivesBlock name us ss) (hs : DerivesStmt name vs s) :
    DerivesBlock name (us ++ vs) (ss ++ [s]) := by
  have h' : DerivesBlock name (vs ++ []) [s] := .cons hs .nil
  rw [List.append_nil] at h'
  exact h.append h'

/-- **Two programs, one after the other**, derived by their tokens in a row. -/
theorem DerivesProgram.append {us vs : List Token} {p p' : Program}
    (h : DerivesProgram name us p) (h' : DerivesProgram name vs p') :
    DerivesProgram name (us ++ vs) (p ++ p') := by
  induction h with
  | nil => exact h'
  | cons hs _ ih =>
    rw [List.append_assoc]
    exact .cons hs ih

/-- One more statement at the end. -/
theorem DerivesProgram.concat {us vs : List Token} {p : Program} {s : Stmt}
    (h : DerivesProgram name us p) (hs : DerivesTop name vs s) :
    DerivesProgram name (us ++ vs) (p ++ [s]) := by
  have h' : DerivesProgram name (vs ++ []) [s] := .cons hs .nil
  rw [List.append_nil] at h'
  exact h.append h'

/-! ### Other tokens

A rule looks at nothing of a token but its kind and its text, so tokens that are alike in these
derive the same trees. -/

/-- What the grammar sees of a token. -/
def Token.face (t : Token) : TokenKind × String := (t.kind, t.text)

section OtherTokens

theorem Token.kind_of_face {t t' : Token} {k : TokenKind} (h : t'.face = t.face)
    (hk : t.kind = k) : t'.kind = k :=
  (congrArg Prod.fst h).trans hk

theorem Token.text_of_face {t t' : Token} (h : t'.face = t.face) : t.text = t'.text :=
  (congrArg Prod.snd h).symm

theorem Token.contents_of_face {t t' : Token} (h : t'.face = t.face) :
    t.contents = t'.contents := by
  rw [contents, contents, text_of_face h]

-- A rule cuts a row into tokens and shorter rows. The other row has the same faces and so can be cut
-- at the same places, and the same rule applies to the parts.
mutual
/-- **The same expression** is derived by tokens with the same faces. -/
theorem DerivesExpr.of_faces {us us' : List Token} {e : Expr}
    (h : us'.map (·.face) = us.map (·.face)) : DerivesExpr name us e → DerivesExpr name us' e
  | .var hk => by
    obtain ⟨t', rfl, ht⟩ := List.map_eq_singleton_iff.mp h
    rw [Token.text_of_face ht]
    exact .var (Token.kind_of_face ht hk)
  | .int hk hn => by
    obtain ⟨t', rfl, ht⟩ := List.map_eq_singleton_iff.mp h
    rw [Token.text_of_face ht] at hn
    exact .int (Token.kind_of_face ht hk) hn
  | .str hk => by
    obtain ⟨t', rfl, ht⟩ := List.map_eq_singleton_iff.mp h
    rw [Token.contents_of_face ht]
    exact .str (Token.kind_of_face ht hk)
  | .bool hk => by
    obtain ⟨t', rfl, ht⟩ := List.map_eq_singleton_iff.mp h
    exact .bool (Token.kind_of_face ht hk)
  -- The other row begins with a token of the same face, and ends with one.
  | .unary hl hu he hr => by
    simp only [List.map_cons, List.map_append, List.map_eq_cons_iff, List.map_eq_append_iff,
      List.map_nil, List.map_eq_nil_iff] at h
    obtain ⟨l', _, rfl, hl', u', _, rfl, hu', vs, _, rfl, hvs, r', _, rfl, hr', rfl⟩ := h
    exact .unary (Token.kind_of_face hl' hl) (Token.kind_of_face hu' hu) (he.of_faces hvs)
      (Token.kind_of_face hr' hr)
  | .binary hl h₁ hb h₂ hr => by
    simp only [List.map_cons, List.map_append, List.map_eq_cons_iff, List.map_eq_append_iff,
      List.map_nil, List.map_eq_nil_iff] at h
    obtain ⟨l', _, rfl, hl', vs, _, rfl, hvs, b', _, rfl, hb', ws, _, rfl, hws, r', _, rfl, hr',
      rfl⟩ := h
    exact .binary (Token.kind_of_face hl' hl) (h₁.of_faces hvs) (Token.kind_of_face hb' hb)
      (h₂.of_faces hws) (Token.kind_of_face hr' hr)
  | .list hl hes hr => by
    simp only [List.map_cons, List.map_append, List.map_eq_cons_iff, List.map_eq_append_iff,
      List.map_nil, List.map_eq_nil_iff] at h
    obtain ⟨l', _, rfl, hl', vs, _, rfl, hvs, r', _, rfl, hr', rfl⟩ := h
    exact .list (Token.kind_of_face hl' hl) (hes.of_faces hvs) (Token.kind_of_face hr' hr)

/-- The same items are derived. -/
theorem DerivesItems.of_faces {us us' : List Token} {es : List Expr}
    (h : us'.map (·.face) = us.map (·.face)) : DerivesItems name us es → DerivesItems name us' es
  | .nil => by
    obtain rfl := List.map_eq_nil_iff.mp h
    exact .nil
  | .cons he hes => by
    rw [List.map_append, List.map_eq_append_iff] at h
    obtain ⟨vs, ws, rfl, hvs, hws⟩ := h
    exact .cons (he.of_faces hvs) (hes.of_faces hws)
end

mutual
/-- **The same statement** is derived. -/
theorem DerivesStmt.of_faces {us us' : List Token} {s : Stmt}
    (h : us'.map (·.face) = us.map (·.face)) : DerivesStmt name us s → DerivesStmt name us' s
  | .assign hx hg he => by
    simp only [List.map_cons, List.map_eq_cons_iff] at h
    obtain ⟨x', _, rfl, hx', g', vs, rfl, hg', hvs⟩ := h
    rw [Token.text_of_face hx']
    exact .assign (Token.kind_of_face hx' hx) (Token.kind_of_face hg' hg) (he.of_faces hvs)
  | .declare hv hx hg he => by
    simp only [List.map_cons, List.map_eq_cons_iff] at h
    obtain ⟨v', _, rfl, hv', x', _, rfl, hx', g', vs, rfl, hg', hvs⟩ := h
    rw [Token.text_of_face hx']
    exact .declare (Token.kind_of_face hv' hv) (Token.kind_of_face hx' hx)
      (Token.kind_of_face hg' hg) (he.of_faces hvs)
  | .print hp he => by
    simp only [List.map_cons, List.map_eq_cons_iff] at h
    obtain ⟨p', vs, rfl, hp', hvs⟩ := h
    exact .print (Token.kind_of_face hp' hp) (he.of_faces hvs)
  -- The other row is cut at the first token, after the condition, and after the body.
  | .ifElse hi hc ht hb hr => by
    simp only [List.map_cons, List.map_append, List.map_eq_cons_iff, List.map_eq_append_iff] at h
    obtain ⟨i', _, rfl, hi', cs, _, rfl, hcs, t', _, rfl, ht', vs, ws, rfl, hvs, hws⟩ := h
    exact .ifElse (Token.kind_of_face hi' hi) (hc.of_faces hcs) (Token.kind_of_face ht' ht)
      (hb.of_faces hvs) (hr.of_faces hws)
  | .whileDo hw hc hd hb he => by
    simp only [List.map_cons, List.map_append, List.map_eq_cons_iff, List.map_eq_append_iff,
      List.map_nil, List.map_eq_nil_iff] at h
    obtain ⟨w', _, rfl, hw', cs, _, rfl, hcs, d', _, rfl, hd', vs, _, rfl, hvs, e', _, rfl, he',
      rfl⟩ := h
    exact .whileDo (Token.kind_of_face hw' hw) (hc.of_faces hcs) (Token.kind_of_face hd' hd)
      (hb.of_faces hvs) (Token.kind_of_face he' he)
  | .repeatTimes hw hn hd hb he => by
    simp only [List.map_cons, List.map_append, List.map_eq_cons_iff, List.map_eq_append_iff,
      List.map_nil, List.map_eq_nil_iff] at h
    obtain ⟨w', _, rfl, hw', ns, _, rfl, hns, d', _, rfl, hd', vs, _, rfl, hvs, e', _, rfl, he',
      rfl⟩ := h
    exact .repeatTimes (Token.kind_of_face hw' hw) (hn.of_faces hns) (Token.kind_of_face hd' hd)
      (hb.of_faces hvs) (Token.kind_of_face he' he)
  | .call hc hx => by
    simp only [List.map_cons, List.map_eq_cons_iff, List.map_nil, List.map_eq_nil_iff] at h
    obtain ⟨c', _, rfl, hc', x', _, rfl, hx', rfl⟩ := h
    rw [Token.text_of_face hx']
    exact .call (Token.kind_of_face hc' hc) (Token.kind_of_face hx' hx)
  | .exit hk => by
    obtain ⟨t', rfl, ht⟩ := List.map_eq_singleton_iff.mp h
    exact .exit (Token.kind_of_face ht hk)
  | .breakLoop hk => by
    obtain ⟨t', rfl, ht⟩ := List.map_eq_singleton_iff.mp h
    exact .breakLoop (Token.kind_of_face ht hk)

/-- The same chain of arms is derived. -/
theorem DerivesArms.of_faces {us us' : List Token} {arms : Arms}
    (h : us'.map (·.face) = us.map (·.face)) : DerivesArms name us arms → DerivesArms name us' arms
  | .done hk => by
    obtain ⟨t', rfl, ht⟩ := List.map_eq_singleton_iff.mp h
    exact .done (Token.kind_of_face ht hk)
  | .otherwise hl hb he => by
    simp only [List.map_cons, List.map_append, List.map_eq_cons_iff, List.map_eq_append_iff,
      List.map_nil, List.map_eq_nil_iff] at h
    obtain ⟨l', _, rfl, hl', vs, _, rfl, hvs, e', _, rfl, he', rfl⟩ := h
    exact .otherwise (Token.kind_of_face hl' hl) (hb.of_faces hvs) (Token.kind_of_face he' he)
  | .arm hl hc ht hb hr => by
    simp only [List.map_cons, List.map_append, List.map_eq_cons_iff, List.map_eq_append_iff] at h
    obtain ⟨l', _, rfl, hl', cs, _, rfl, hcs, t', _, rfl, ht', vs, ws, rfl, hvs, hws⟩ := h
    exact .arm (Token.kind_of_face hl' hl) (hc.of_faces hcs) (Token.kind_of_face ht' ht)
      (hb.of_faces hvs) (hr.of_faces hws)

/-- The same block is derived. -/
theorem DerivesBlock.of_faces {us us' : List Token} {ss : List Stmt}
    (h : us'.map (·.face) = us.map (·.face)) : DerivesBlock name us ss → DerivesBlock name us' ss
  | .nil => by
    obtain rfl := List.map_eq_nil_iff.mp h
    exact .nil
  | .cons hs hss => by
    rw [List.map_append, List.map_eq_append_iff] at h
    obtain ⟨vs, ws, rfl, hvs, hws⟩ := h
    exact .cons (hs.of_faces hvs) (hss.of_faces hws)
end

/-- The same statement at the top level is derived. -/
theorem DerivesTop.of_faces {us us' : List Token} {s : Stmt}
    (h : us'.map (·.face) = us.map (·.face)) (hs : DerivesTop name us s) :
    DerivesTop name us' s := by
  cases hs with
  | stmt hs => exact .stmt (hs.of_faces h)
  | sub hk hx hb he =>
    simp only [List.map_cons, List.map_append, List.map_eq_cons_iff, List.map_eq_append_iff,
      List.map_nil, List.map_eq_nil_iff] at h
    obtain ⟨k', _, rfl, hk', x', _, rfl, hx', vs, _, rfl, hvs, e', _, rfl, he', rfl⟩ := h
    rw [Token.text_of_face hx']
    exact .sub (Token.kind_of_face hk' hk) (Token.kind_of_face hx' hx) (hb.of_faces hvs)
      (Token.kind_of_face he' he)

/-- **What a row of tokens derives depends on their kinds and texts alone.** -/
theorem DerivesProgram.of_faces {us us' : List Token} {p : Program}
    (h : us'.map (·.face) = us.map (·.face)) (hp : DerivesProgram name us p) :
    DerivesProgram name us' p := by
  -- By induction on the derivation, where the other row is cut after the first statement.
  induction hp generalizing us' with
  | nil =>
    obtain rfl := List.map_eq_nil_iff.mp h
    exact .nil
  | cons hs _ ih =>
    rw [List.map_append, List.map_eq_append_iff] at h
    obtain ⟨vs, ws, rfl, hvs, hws⟩ := h
    exact .cons (hs.of_faces hvs) (ih hws)

end OtherTokens

/-! ### Other names

The tree that a row of tokens derives holds the names that the texts are assigned, so with another
assignment the same tokens derive another tree of the same shape, and the two trees are alike. -/

section OtherNames

variable {name' : String → Name} {R : Name → Name → Prop}

/-- The two names that a token derives, if it derives a name, are related. -/
def Token.Relates (R : Name → Name → Prop) (name name' : String → Name) (t : Token) : Prop :=
  (t.kind = .identifier → R (name t.text) (name' t.text)) ∧
    (t.kind = .string → R (name t.contents) (name' t.contents))

-- No rule has a premise about names, so the same rules apply again. The tokens of a part are among
-- those of the whole.
mutual
/-- **An alike expression** is derived with other names. -/
theorem DerivesExpr.exists_alike {us : List Token} {e : Expr}
    (h : ∀ t ∈ us, t.Relates R name name') :
    DerivesExpr name us e → ∃ e', DerivesExpr name' us e' ∧ ExprAlike R e e'
  | .var hk => ⟨_, .var hk, .var ((h _ List.mem_cons_self).1 hk)⟩
  | .int hk hn => ⟨_, .int hk hn, .int _⟩
  | .str hk => ⟨_, .str hk, .str ((h _ List.mem_cons_self).2 hk)⟩
  | .bool hk => ⟨_, .bool hk, .bool _⟩
  | .unary hl hu he hr =>
    let ⟨_, he', ha⟩ := he.exists_alike fun t ht => h t (by simp [ht])
    ⟨_, .unary hl hu he' hr, .unary _ ha⟩
  | .binary hl h₁ hb h₂ hr =>
    let ⟨_, h₁', ha₁⟩ := h₁.exists_alike fun t ht => h t (by simp [ht])
    let ⟨_, h₂', ha₂⟩ := h₂.exists_alike fun t ht => h t (by simp [ht])
    ⟨_, .binary hl h₁' hb h₂' hr, .binary _ ha₁ ha₂⟩
  | .list hl hes hr =>
    let ⟨_, hes', ha⟩ := hes.exists_alike fun t ht => h t (by simp [ht])
    ⟨_, .list hl hes' hr, .list ha⟩

/-- Alike items are derived. -/
theorem DerivesItems.exists_alike {us : List Token} {es : List Expr}
    (h : ∀ t ∈ us, t.Relates R name name') :
    DerivesItems name us es → ∃ es', DerivesItems name' us es' ∧ ItemsAlike R es es'
  | .nil => ⟨_, .nil, .nil⟩
  | .cons he hes =>
    let ⟨_, he', ha⟩ := he.exists_alike fun t ht => h t (by simp [ht])
    let ⟨_, hes', has⟩ := hes.exists_alike fun t ht => h t (by simp [ht])
    ⟨_, .cons he' hes', .cons ha has⟩
end

mutual
/-- **An alike statement** is derived with other names. -/
theorem DerivesStmt.exists_alike {us : List Token} {s : Stmt}
    (h : ∀ t ∈ us, t.Relates R name name') :
    DerivesStmt name us s → ∃ s', DerivesStmt name' us s' ∧ StmtAlike R s s'
  | .assign hx hg he =>
    let ⟨_, he', ha⟩ := he.exists_alike fun t ht => h t (by simp [ht])
    ⟨_, .assign hx hg he', .assign ((h _ List.mem_cons_self).1 hx) ha⟩
  | .declare hv hx hg he =>
    let ⟨_, he', ha⟩ := he.exists_alike fun t ht => h t (by simp [ht])
    ⟨_, .declare hv hx hg he', .declare ((h _ (by simp)).1 hx) ha⟩
  | .print hp he =>
    let ⟨_, he', ha⟩ := he.exists_alike fun t ht => h t (by simp [ht])
    ⟨_, .print hp he', .print ha⟩
  | .ifElse hi hc ht hb hr =>
    let ⟨_, hc', hac⟩ := hc.exists_alike fun t ht => h t (by simp [ht])
    let ⟨_, hb', hab⟩ := hb.exists_alike fun t ht => h t (by simp [ht])
    let ⟨_, hr', har⟩ := hr.exists_alike fun t ht => h t (by simp [ht])
    ⟨_, .ifElse hi hc' ht hb' hr', .ifElse (.arm hac hab har)⟩
  | .whileDo hw hc hd hb he =>
    let ⟨_, hc', hac⟩ := hc.exists_alike fun t ht => h t (by simp [ht])
    let ⟨_, hb', hab⟩ := hb.exists_alike fun t ht => h t (by simp [ht])
    ⟨_, .whileDo hw hc' hd hb' he, .whileDo hac hab⟩
  | .repeatTimes hw hn hd hb he =>
    let ⟨_, hn', han⟩ := hn.exists_alike fun t ht => h t (by simp [ht])
    let ⟨_, hb', hab⟩ := hb.exists_alike fun t ht => h t (by simp [ht])
    ⟨_, .repeatTimes hw hn' hd hb' he, .repeatTimes han hab⟩
  | .call hc hx => ⟨_, .call hc hx, .call ((h _ (by simp)).1 hx)⟩
  | .exit hk => ⟨_, .exit hk, .exit⟩
  | .breakLoop hk => ⟨_, .breakLoop hk, .breakLoop⟩

/-- An alike chain of arms is derived. -/
theorem DerivesArms.exists_alike {us : List Token} {arms : Arms}
    (h : ∀ t ∈ us, t.Relates R name name') :
    DerivesArms name us arms → ∃ arms', DerivesArms name' us arms' ∧ ArmsAlike R arms arms'
  | .done hk => ⟨_, .done hk, .done⟩
  | .otherwise hl hb he =>
    let ⟨_, hb', hab⟩ := hb.exists_alike fun t ht => h t (by simp [ht])
    ⟨_, .otherwise hl hb' he, .otherwise hab⟩
  | .arm hl hc ht hb hr =>
    let ⟨_, hc', hac⟩ := hc.exists_alike fun t ht => h t (by simp [ht])
    let ⟨_, hb', hab⟩ := hb.exists_alike fun t ht => h t (by simp [ht])
    let ⟨_, hr', har⟩ := hr.exists_alike fun t ht => h t (by simp [ht])
    ⟨_, .arm hl hc' ht hb' hr', .arm hac hab har⟩

/-- An alike block is derived. -/
theorem DerivesBlock.exists_alike {us : List Token} {ss : List Stmt}
    (h : ∀ t ∈ us, t.Relates R name name') :
    DerivesBlock name us ss → ∃ ss', DerivesBlock name' us ss' ∧ BlockAlike R ss ss'
  | .nil => ⟨_, .nil, .nil⟩
  | .cons hs hss =>
    let ⟨_, hs', ha⟩ := hs.exists_alike fun t ht => h t (by simp [ht])
    let ⟨_, hss', has⟩ := hss.exists_alike fun t ht => h t (by simp [ht])
    ⟨_, .cons hs' hss', .cons ha has⟩
end

/-- An alike statement at the top level is derived. -/
theorem DerivesTop.exists_alike {us : List Token} {s : Stmt}
    (h : ∀ t ∈ us, t.Relates R name name') (hs : DerivesTop name us s) :
    ∃ s', DerivesTop name' us s' ∧ TopAlike R s s' := by
  cases hs with
  | stmt hs =>
    obtain ⟨s', hs', ha⟩ := hs.exists_alike h
    exact ⟨s', .stmt hs', .stmt ha⟩
  | sub hk hx hb he =>
    obtain ⟨body', hb', ha⟩ := hb.exists_alike fun t ht => h t (by simp [ht])
    exact ⟨_, .sub hk hx hb' he, .sub ((h _ (by simp)).1 hx) ha⟩

/-- **With other names the same tokens derive a program that is alike.** -/
theorem DerivesProgram.exists_alike {us : List Token} {p : Program}
    (h : ∀ t ∈ us, t.Relates R name name') (hp : DerivesProgram name us p) :
    ∃ p', DerivesProgram name' us p' ∧ ProgramAlike R p p' := by
  -- By induction on the derivation, statement by statement.
  induction hp with
  | nil => exact ⟨[], .nil, .nil⟩
  | cons hs _ ih =>
    obtain ⟨s', hs', ha⟩ := hs.exists_alike fun t ht => h t (by simp [ht])
    obtain ⟨p', hp', hap⟩ := ih fun t ht => h t (by simp [ht])
    exact ⟨s' :: p', .cons hs' hp', .cons ha hap⟩

/-- **Which rows of tokens derive a program does not depend on the names.** -/
theorem DerivesProgram.exists_of_name {us : List Token} {p : Program}
    (name' : String → Name) (h : DerivesProgram name us p) : ∃ p', DerivesProgram name' us p' := by
  -- Where nothing is asked of two names, all names are related.
  have hrelates : ∀ t ∈ us, t.Relates (fun _ _ => True) name name' :=
    fun _ _ => ⟨fun _ => trivial, fun _ => trivial⟩
  obtain ⟨p', hp', -⟩ := h.exists_alike hrelates
  exact ⟨p', hp'⟩

end OtherNames

end Silly
