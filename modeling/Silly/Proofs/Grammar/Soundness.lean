import Silly.Proofs.Grammar.Derivation
import Silly.Proofs.Grammar.Reading

/-!
# What is read is derived

A partly read statement is a stack of open constructs, and behind each there are the tokens by which
it was opened. The relations `Opens...` say which tokens these can be, one relation for each kind of
hole. Put together, `Reads ts p` says that `p` is what a reader may hold after the tokens `ts`.

The invariant of a run is `Reads`. One step keeps it, or ends with a statement that the tokens derive
(`Reads.judge`), and the cases are those of the step: a filled expression hole (`justified_deliver`), a
completed statement (`justified_finish`), and the end of a block (`justified_closeBlock`). From the
step, `readAll_derives` follows by induction over the tokens.
-/

namespace Silly

/-! ### The tokens of an open construct -/

section Opens

variable (name : String → Name)

/-- **The tokens that open a stack of expressions**, the innermost of which comes first. -/
inductive OpensExprs : List Token → List ExprHole → Prop
  | nil : OpensExprs [] []
  | group {ts : List Token} {p : Token} {hs : List ExprHole} :
      OpensExprs ts hs → p.kind = .delimiter .openParen → OpensExprs (ts ++ [p]) (.group :: hs)
  | operand {ts : List Token} {p u : Token} {op : UnaryOp} {hs : List ExprHole} :
      OpensExprs ts hs → p.kind = .delimiter .openParen → u.kind = .unary op →
      OpensExprs (ts ++ [p, u]) (.operand op :: hs)
  | right {ts us : List Token} {p b : Token} {left : Expr} {op : BinaryOp} {hs : List ExprHole} :
      OpensExprs ts hs → p.kind = .delimiter .openParen → DerivesExpr name us left →
      b.kind = .binary op → OpensExprs (ts ++ p :: (us ++ [b])) (.right left op :: hs)
  | item {ts us : List Token} {p : Token} {before : List Expr} {hs : List ExprHole} :
      OpensExprs ts hs → p.kind = .delimiter .openBracket → DerivesItems name us before.reverse →
      OpensExprs (ts ++ p :: us) (.item before :: hs)

/-- **The tokens of a statement before an expression.** -/
inductive OpensStmt : List Token → StmtHole → Prop
  | assign {x g : Token} :
      x.kind = .identifier → g.kind = .keyword .gets → OpensStmt [x, g] (.assign (name x.text))
  | declare {v x g : Token} :
      v.kind = .statement .var → x.kind = .identifier → g.kind = .keyword .gets →
      OpensStmt [v, x, g] (.declare (name x.text))
  | print {p : Token} : p.kind = .statement .print → OpensStmt [p] .print
  | first {i : Token} : i.kind = .statement .if → OpensStmt [i] (.branch [])
  | further {ts us vs : List Token} {t l : Token} {before : List (Expr × Block)} {c : Expr}
      {body : Block} :
      OpensStmt ts (.branch before) → DerivesExpr name us c → t.kind = .keyword .then →
      DerivesBlock name vs body → l.kind = .keyword .elseif →
      OpensStmt (ts ++ us ++ t :: (vs ++ [l])) (.branch ((c, body) :: before))
  | whileDo {w : Token} : w.kind = .statement .while → OpensStmt [w] .whileDo
  | repeatTimes {w : Token} : w.kind = .statement .repeat → OpensStmt [w] .repeatTimes

/-- The tokens of a header: those of a statement before its expression, and those of the
expression. -/
def OpensHeader (ts : List Token) (header : Header) : Prop :=
  ∃ us vs hole e, ts = us ++ vs ∧ OpensStmt name us hole ∧ DerivesExpr name vs e ∧
    hole.fill e = .inr header

/-- **The tokens of a statement before a block.** -/
inductive OpensBlock : List Token → BlockHole → Prop
  | after {ts : List Token} {k : Token} {header : Header} :
      OpensHeader name ts header → k.kind = .keyword header.word →
      OpensBlock (ts ++ [k]) (.after header)
  | otherwise {ts vs : List Token} {l : Token} {before : List (Expr × Block)} {c : Expr}
      {body : Block} :
      OpensBlock ts (.after (.branch before c)) → DerivesBlock name vs body →
      l.kind = .keyword .else → OpensBlock (ts ++ vs ++ [l]) (.otherwise ((c, body) :: before))
  | sub {s x : Token} :
      s.kind = .statement .sub → x.kind = .identifier → OpensBlock [s, x] (.sub (name x.text))

/-- **The tokens of a stack of open blocks**, the innermost of which comes first. A subroutine's
body stands in no other block. -/
inductive OpensBlocks : List Token → List OpenBlock → Prop
  | nil : OpensBlocks [] []
  | cons {ts us vs : List Token} {b : OpenBlock} {bs : List OpenBlock} :
      OpensBlocks ts bs → OpensBlock name us b.hole → (∀ x, b.hole = .sub x → bs = []) →
      DerivesBlock name vs b.body → OpensBlocks (ts ++ us ++ vs) (b :: bs)

/-- **The tokens of a statement before what it needs next.** -/
inductive OpensNeed : List Token → Need → Prop
  | declare {v : Token} : v.kind = .statement .var → OpensNeed [v] (.name .declare)
  | sub {s : Token} : s.kind = .statement .sub → OpensNeed [s] (.name .sub)
  | call {c : Token} : c.kind = .statement .call → OpensNeed [c] (.name .call)
  | gets {ts : List Token} {hole : StmtHole} :
      (∀ g : Token, g.kind = .keyword .gets → OpensStmt name (ts ++ [g]) hole) →
      OpensNeed ts (.gets hole)
  | expression {ts us : List Token} {hole : StmtHole} {around : List ExprHole} :
      OpensStmt name ts hole → OpensExprs name us around →
      OpensNeed (ts ++ us) (.expression hole around)
  | operator {ts us vs : List Token} {p : Token} {hole : StmtHole} {around : List ExprHole}
      {left : Expr} :
      OpensStmt name ts hole → OpensExprs name us around → p.kind = .delimiter .openParen →
      DerivesExpr name vs left → OpensNeed (ts ++ us ++ p :: vs) (.operator hole around left)
  | closing {ts us vs : List Token} {hole : StmtHole} {around : List ExprHole} {e : Expr} :
      OpensStmt name ts hole → OpensExprs name us around →
      (∀ r : Token, r.kind = .delimiter .closeParen → DerivesExpr name (vs ++ [r]) e) →
      OpensNeed (ts ++ us ++ vs) (.closing hole around e)
  | word {ts : List Token} {header : Header} :
      OpensHeader name ts header → OpensNeed ts (.word header)

/-- **The tokens that may have been read into a fragment.** -/
inductive Reads : List Token → Fragment → Prop
  | between {ts : List Token} {bs : List OpenBlock} :
      OpensBlocks name ts bs → Reads ts ⟨.between, bs⟩
  | within {ts us : List Token} {o : Opening} {need : Need} {bs : List OpenBlock} :
      OpensBlocks name ts bs → OpensNeed name us need → (need = .name .sub → bs = []) →
      Reads (ts ++ us) ⟨.within o need, bs⟩

/-- **What a verdict has to say of the tokens read so far**, if it is not an error: they were read
into the next fragment, or they are those of the completed statement. -/
def Verdict.Justified (ts : List Token) : Verdict → Prop
  | .more p => Reads name ts p
  | .complete s => DerivesTop name ts s
  | .reject _ | .decline _ => True

end Opens

variable {name : String → Name}

theorem Reads.start : Reads name [] .start := .between .nil

/-- The expression of a statement may come next where its other tokens have been read. -/
theorem Reads.expression {ts us : List Token} {o : Opening} {hole : StmtHole} {bs : List OpenBlock}
    (hb : OpensBlocks name ts bs) (hs : OpensStmt name us hole) :
    Reads name (ts ++ us) ⟨.within o (.expression hole []), bs⟩ := by
  have hneed : OpensNeed name (us ++ []) (.expression hole []) := .expression hs .nil
  rw [List.append_nil] at hneed
  exact .within hb hneed (by simp)

/-- Where more is needed, the tokens have to have been read into what is left open. -/
@[simp] theorem justified_more {names : Interner} {ts : List Token} {phase : Phase}
    {bs : List OpenBlock} :
    (Turn.more names phase bs).verdict.Justified name ts ↔ Reads name ts ⟨phase, bs⟩ := Iff.rfl

/-! ### Closing an `if`

The branches of an `if` were read one after another, and are derived from the last one backwards. -/

/-- **The tokens of a whole `if`**, from those of the branches before the last one, of the last one,
and of what follows it. -/
theorem OpensStmt.derives_if {ts us vs ws : List Token} {t : Token} {before : List (Expr × Block)}
    {c : Expr} {body : Block} {rest : Arms} (h : OpensStmt name ts (.branch before))
    (hc : DerivesExpr name us c) (ht : t.kind = .keyword .then) (hb : DerivesBlock name vs body)
    (hr : DerivesArms name ws rest) :
    DerivesStmt name (ts ++ us ++ t :: (vs ++ ws))
      (.ifElse (.ofBranches before.reverse (.arm c body rest))) := by
  -- By induction on the branches before, from the last one back to the first.
  induction before generalizing ts us vs ws t c body rest with
  | nil =>
    cases h with
    | first hi => exact .ifElse hi hc ht hb hr
  | cons b before ih =>
    cases h with
    | further h hc' ht' hb' hl =>
      -- The last branch with what follows it is an arm, which follows the branch before.
      have hif := ih h hc' ht' hb' (.arm hl hc ht hb hr)
      simpa [Arms.ofBranches] using hif

/-- The tokens of an open branch are those of the branches before it, of its condition, and `then`. -/
theorem OpensBlock.branch_inv {ts : List Token} {before : List (Expr × Block)} {c : Expr}
    (h : OpensBlock name ts (.after (.branch before c))) :
    ∃ us vs t, ts = us ++ vs ++ [t] ∧ OpensStmt name us (.branch before) ∧
      DerivesExpr name vs c ∧ t.kind = .keyword .then := by
  cases h with
  | @after _ k _ hh hk =>
    obtain ⟨us, vs, hole, e, rfl, ho, he, hfill⟩ := hh
    -- Only an open branch is filled to become the header of one.
    cases hole <;> cases hfill
    exact ⟨us, vs, k, rfl, ho, he, hk⟩

/-- The tokens of the other two headers are the first word of the statement and the expression. -/
theorem OpensBlock.while_inv {ts : List Token} {c : Expr}
    (h : OpensBlock name ts (.after (.whileDo c))) :
    ∃ w us d, ts = w :: (us ++ [d]) ∧ w.kind = .statement .while ∧ DerivesExpr name us c ∧
      d.kind = .keyword .do := by
  cases h with
  | @after _ k _ hh hk =>
    obtain ⟨us, vs, hole, e, rfl, ho, he, hfill⟩ := hh
    cases hole <;> cases hfill
    cases ho with
    | @whileDo w hw => exact ⟨w, vs, k, rfl, hw, he, hk⟩

/-- So it is with a loop that counts. -/
theorem OpensBlock.repeat_inv {ts : List Token} {n : Expr}
    (h : OpensBlock name ts (.after (.repeatTimes n))) :
    ∃ w us d, ts = w :: (us ++ [d]) ∧ w.kind = .statement .repeat ∧ DerivesExpr name us n ∧
      d.kind = .keyword .times := by
  cases h with
  | @after _ k _ hh hk =>
    obtain ⟨us, vs, hole, e, rfl, ho, he, hfill⟩ := hh
    cases hole <;> cases hfill
    cases ho with
    | @repeatTimes w hw => exact ⟨w, vs, k, rfl, hw, he, hk⟩

/-! ### Completed parts -/

section Completed

variable {names : Interner} {ts us vs ws : List Token} {o : Opening} {hole : StmtHole}
  {bs : List OpenBlock} {around : List ExprHole} {e : Expr} {s : Stmt}

/-- A statement whose last part is an expression. -/
theorem OpensStmt.derives_fill (h : OpensStmt name us hole) (he : DerivesExpr name vs e)
    (hfill : hole.fill e = .inl s) : DerivesStmt name (us ++ vs) s := by
  -- By the hole. Those that are headers are not filled to become a statement.
  cases h with
  | assign hx hg =>
    cases hfill
    exact .assign hx hg he
  | declare hv hx hg =>
    cases hfill
    exact .declare hv hx hg he
  | print hp =>
    cases hfill
    exact .print hp he
  | first | further | whileDo | repeatTimes => cases hfill

/-- **A completed statement** goes into the innermost block, or is a statement at the top level. -/
theorem justified_finish (names : Interner) (o : Opening) (hb : OpensBlocks name ts bs)
    (hs : DerivesStmt name us s) :
    (Turn.finish names o s bs).verdict.Justified name (ts ++ us) := by
  cases hb with
  -- At the top level the statement is complete. In a block it is one more.
  | nil => exact .stmt hs
  | @cons _ _ ws b _ hbs hhole hsub hbody =>
    have hpush : DerivesBlock name (ws ++ us) (b.push s).body := by
      simpa [OpenBlock.push, OpenBlock.body] using hbody.concat hs
    have hreads : Reads name _ ⟨.between, b.push s :: _⟩ := .between (.cons hbs hhole hsub hpush)
    simpa [Turn.finish, Verdict.Justified] using hreads

/-- **A completed expression** completes the statement or its header, or goes into the innermost
open expression. -/
theorem justified_deliver (names : Interner) (o : Opening) (hb : OpensBlocks name ts bs)
    (hs : OpensStmt name us hole) (ha : OpensExprs name vs around) (he : DerivesExpr name ws e) :
    (deliver names o hole bs e around).verdict.Justified name (ts ++ us ++ vs ++ ws) := by
  cases ha with
  | nil =>
    -- The expression is the statement's own, which ends with it or has a block to come.
    rw [List.append_nil, List.append_assoc, deliver]
    split
    · next hfill => exact justified_finish _ _ hb (hs.derives_fill he hfill)
    · next hfill => exact Reads.within hb (.word ⟨_, _, _, _, rfl, hs, he, hfill⟩) (by simp)
  -- It is the left operand, so an operator is needed.
  | group ha hp =>
    have hreads := Reads.within (o := o) hb (.operator hs ha hp he) (by simp)
    simpa [deliver] using hreads
  | @operand vs p u op _ ha hp hu =>
    -- From here on, only the parenthesis that closes the operation is missing.
    have hneed : OpensNeed name (us ++ vs ++ p :: u :: ws) (.closing hole _ (.unary op e)) :=
      .closing hs ha fun r hr => .unary hp hu he hr
    have hreads := Reads.within (o := o) hb hneed (by simp)
    simpa [deliver] using hreads
  | @right vs us' p b left op _ ha hp hl hop =>
    have hneed : OpensNeed name (us ++ vs ++ p :: (us' ++ b :: ws))
        (.closing hole _ (.binary op left e)) :=
      .closing hs ha fun r hr => by simpa using DerivesExpr.binary hp hl hop he hr
    have hreads := Reads.within (o := o) hb hneed (by simp)
    simpa [deliver] using hreads
  | @item vs us' p before _ ha hp hes =>
    -- A list stays open, with one more item.
    have hes' : DerivesItems name (us' ++ ws) (e :: before).reverse := by
      simpa using hes.concat he
    have hreads := Reads.within (o := o) hb (.expression hs (.item ha hp hes')) (by simp)
    simpa [deliver] using hreads

end Completed

/-! ### One token -/

section Step

variable {names : Interner} {ts us vs : List Token} {o : Opening} {hole : StmtHole}
  {bs : List OpenBlock} {around : List ExprHole} {t : Token}

/-- A token where an expression is needed. -/
theorem justified_stepExpression (hb : OpensBlocks names.nameOf ts bs)
    (hs : OpensStmt names.nameOf us hole) (ha : OpensExprs names.nameOf vs around) :
    (stepExpression names o hole bs around (t.named names)).verdict.Justified names.nameOf
      (ts ++ us ++ vs ++ [t]) := by
  simp only [stepExpression, Token.named_kind, Token.named_text]
  split
  -- An opening mark makes a group or a list the innermost open expression.
  · next hk =>
    have hreads := Reads.within (o := o) hb (.expression hs (.group ha hk)) (by simp)
    simpa using hreads
  · next hk =>
    have hlist : OpensExprs names.nameOf (vs ++ [t]) (.item [] :: _) := .item ha hk .nil
    have hreads := Reads.within (o := o) hb (.expression hs hlist) (by simp)
    simpa using hreads
  -- A name, a truth value, an integer and a string are complete expressions.
  · next hk => exact justified_deliver _ _ hb hs ha (.var hk)
  · next hk => exact justified_deliver _ _ hb hs ha (.bool hk)
  · next hk =>
    split
    · next hn => exact justified_deliver _ _ hb hs ha (.int hk hn)
    · trivial
  · next hk => exact justified_deliver _ _ hb hs ha (.str hk)
  · next op _ hk =>
    -- The parenthesis before the operator is the group that it turns into an operation.
    cases ha with
    | group ha hp =>
      have hreads := Reads.within (o := o) hb (.expression hs (.operand ha hp hk)) (by simp)
      simpa using hreads
  -- The bracket closes the list that is open, whose items have been read.
  · next before _ hk =>
    cases ha with
    | @item vs us' p _ _ ha hp hes =>
      have hlist := justified_deliver names o hb hs ha (.list hp hes hk)
      simpa using hlist
  · trivial

/-- A token within a statement. -/
theorem justified_stepWithin {need : Need} (hb : OpensBlocks names.nameOf ts bs)
    (hn : OpensNeed names.nameOf us need) (hsub : need = .name .sub → bs = []) :
    (stepWithin names o bs (t.named names) need).verdict.Justified names.nameOf
      (ts ++ us ++ [t]) := by
  cases hn with
  -- A name has been declared, and `gets` must follow it.
  | declare hv =>
    simp only [stepWithin]
    split
    · next hk =>
      have hgets : OpensNeed names.nameOf ([_] ++ [t]) (.gets (.declare (names.nameOf t.text))) :=
        .gets fun g hg => .declare hv hk hg
      have hreads := Reads.within (o := o) hb hgets (by simp)
      simpa using hreads
    · trivial
  | sub hs =>
    simp only [stepWithin]
    split
    · next hk =>
      -- The body of the subroutine begins, with no block around it.
      have hreads := Reads.between (.cons (b := ⟨o, .sub (names.nameOf t.text), []⟩) hb
        (.sub hs hk) (fun _ _ => hsub rfl) .nil)
      simpa using hreads
    · trivial
  | call hc =>
    simp only [stepWithin]
    split
    · next hk => simpa using justified_finish names o hb (.call (x := t) hc hk)
    · trivial
  | gets hopens =>
    simp only [stepWithin]
    split
    · next hk =>
      have hreads := Reads.expression (o := o) hb (hopens t hk)
      simpa using hreads
    · trivial
  | expression hs ha =>
    have hstep := justified_stepExpression (o := o) (t := t) hb hs ha
    simpa [stepWithin] using hstep
  -- The left operand has been read, and the operator opens the right one.
  | operator hs ha hp hl =>
    simp only [stepWithin, Token.named_kind]
    split
    · next hk =>
      have hreads := Reads.within (o := o) hb (.expression hs (.right ha hp hl hk)) (by simp)
      simpa using hreads
    · trivial
  | closing hs ha he =>
    simp only [stepWithin]
    split
    · next hk => simpa using justified_deliver names o hb hs ha (he t hk)
    · trivial
  | word hh =>
    simp only [stepWithin]
    split
    -- The keyword opens the block of the header.
    · next hk =>
      have hreads := Reads.between (.cons (b := ⟨o, .after _, []⟩) hb
        (.after (k := t) hh hk) (by simp) .nil)
      simpa using hreads
    · trivial

/-- **The end of a block.** -/
theorem justified_closeBlock {b : OpenBlock} {k : Keyword} (hb : OpensBlocks names.nameOf ts (b :: bs))
    (hk : t.kind = .keyword k) (hterm : k ∈ b.hole.terminators) :
    (closeBlock names b bs k).verdict.Justified names.nameOf (ts ++ [t]) := by
  cases hb with
  | @cons ts us vs _ _ hbs hhole hsub hbody =>
    unfold closeBlock
    -- By the construct that has the block, and by the keyword that ends it.
    split
    · next before cond hafter =>
      rw [hafter] at hhole hterm
      obtain ⟨us₁, us₂, w, rfl, hopens, hc, hw⟩ := hhole.branch_inv
      dsimp only
      split
      · -- `elseif`: the branch joins those before it.
        have hreads := Reads.within (o := b.opening) hbs
          (.expression (.further hopens hc hw hbody hk) .nil) (by simp)
        simpa using hreads
      · -- `else`: so it does, and a body without a condition begins.
        have hreads := Reads.between (.cons (b := ⟨b.opening, .otherwise _, []⟩) hbs
          (.otherwise hhole hbody hk) (by simp) .nil)
        simpa using hreads
      · -- `endif`, since nothing else ends a branch.
        next hne hne' =>
        have hcases : k = .elseif ∨ k = .else ∨ k = .endif := by
          simpa [BlockHole.terminators] using hterm
        have hkind : k = .endif := (hcases.resolve_left hne).resolve_left hne'
        have hif := hopens.derives_if hc hw hbody (.done (hkind ▸ hk))
        have hfinish := justified_finish names b.opening hbs hif
        simpa [Arms.ofBranches] using hfinish
    -- A loop is complete with its block.
    · next cond hafter =>
      rw [hafter] at hhole hterm
      obtain ⟨w, us', d, rfl, hw, hc, hd⟩ := hhole.while_inv
      have hkind : k = .endwhile := by simpa [BlockHole.terminators] using hterm
      have hwhile := DerivesStmt.whileDo hw hc hd hbody (hkind ▸ hk)
      simpa using justified_finish names b.opening hbs hwhile
    · next count hafter =>
      rw [hafter] at hhole hterm
      obtain ⟨w, us', d, rfl, hw, hc, hd⟩ := hhole.repeat_inv
      have hkind : k = .endrepeat := by simpa [BlockHole.terminators] using hterm
      have hrepeat := DerivesStmt.repeatTimes hw hc hd hbody (hkind ▸ hk)
      simpa using justified_finish names b.opening hbs hrepeat
    -- The `else` body was the last one, so the branches before it are all there are.
    · next branches hother =>
      rw [hother] at hhole hterm
      have hkind : k = .endif := by simpa [BlockHole.terminators] using hterm
      cases hhole with
      | @otherwise us vs' l before c body hafter hbody' hl =>
        obtain ⟨us₁, us₂, w, rfl, hopens, hc, hw⟩ := hafter.branch_inv
        have hif := hopens.derives_if hc hw hbody' (.otherwise hl hbody (hkind ▸ hk))
        have hfinish := justified_finish names b.opening hbs hif
        simpa [Arms.ofBranches] using hfinish
    · next x hx =>
      rw [hx] at hhole hterm
      have hkind : k = .endsub := by simpa [BlockHole.terminators] using hterm
      -- Nothing is open around a subroutine, so its statement is one of the top level.
      obtain rfl := hsub x hx
      cases hbs
      cases hhole with
      | sub hs hname =>
        have htop := DerivesTop.sub hs hname hbody (hkind ▸ hk)
        simpa [Turn.finish, Verdict.Justified] using htop

/-- The first word of a statement. -/
theorem justified_beginStatement {k : StatementKeyword} (hb : OpensBlocks names.nameOf ts bs)
    (hk : t.kind = .statement k) :
    (beginStatement names bs (t.named names) k).verdict.Justified names.nameOf (ts ++ [t]) := by
  -- By the word: something is needed next, or the statement is complete with it.
  cases k with
  | var => exact Reads.within hb (.declare hk) (by simp)
  | print => exact .expression hb (.print hk)
  | «if» => exact .expression hb (.first hk)
  | «while» => exact .expression hb (.whileDo hk)
  | «repeat» => exact .expression hb (.repeatTimes hk)
  | sub =>
    simp only [beginStatement]
    split
    · next hempty => exact Reads.within hb (.sub hk) fun _ => List.isEmpty_iff.mp hempty
    · -- Within a block `sub` is an error, of which nothing is said.
      trivial
  | call => exact Reads.within hb (.call hk) (by simp)
  | exit => exact justified_finish _ _ hb (.exit hk)
  | «break» => exact justified_finish _ _ hb (.breakLoop hk)

/-- A token between statements. -/
theorem justified_stepBetween (hb : OpensBlocks names.nameOf ts bs) :
    (stepBetween names bs (t.named names)).verdict.Justified names.nameOf (ts ++ [t]) := by
  unfold stepBetween
  split
  · next hk => exact justified_beginStatement hb hk
  -- A name at the beginning is that of an assignment.
  · next hk =>
    have hgets : OpensNeed names.nameOf [t] (.gets (.assign (names.nameOf t.text))) :=
      .gets fun g hg => .assign hk hg
    exact Reads.within hb hgets (by simp)
  -- A keyword ends the innermost block, or it begins no statement.
  · next k hk =>
    split
    · split
      · next hterm => exact justified_closeBlock hb hk (by simpa using hterm)
      · trivial
    · trivial
  · trivial

/-- **One token keeps the invariant**, completes a statement that the tokens derive, or is an
error. -/
theorem Reads.judge {p : Fragment} (h : Reads names.nameOf ts p) :
    (p.judge names t).Justified names.nameOf (ts ++ [t]) := by
  cases h with
  | between hb => exact justified_stepBetween hb
  | within hb hn hsub => exact justified_stepWithin hb hn hsub

end Step

/-! ### All tokens -/

/-- At the end of the source nothing may be open. -/
theorem Reads.eq_nil_of_atEnd {ts : List Token} {p : Fragment} (h : Reads name ts p)
    (hend : p.atEnd = none) : ts = [] := by
  -- Between two statements with no open block nothing has been read since the last one.
  cases h with
  | within => simp [Fragment.atEnd] at hend
  | between hb =>
    cases hb with
    | nil => rfl
    | cons => simp [Fragment.atEnd] at hend

/-- **What is read is derived.** The tokens of the statements read before, those of the partly read
statement, and those still to come together derive the program. -/
theorem readAll_derives {names : Interner} {p : Fragment} {before : List Stmt} {prog : Program}
    {us vs ts : List Token} (hbefore : DerivesProgram names.nameOf us before.reverse)
    (hp : Reads names.nameOf vs p) (h : readAll names p before ts = .ok prog) :
    DerivesProgram names.nameOf (us ++ vs ++ ts) prog := by
  -- The invariant is `hp`. When a statement is complete its tokens join those before it.
  induction ts generalizing p before us vs with
  | nil =>
    rw [readAll] at h
    split at h
    · next hend =>
      obtain rfl := hp.eq_nil_of_atEnd hend
      cases h
      simpa using hbefore
    · cases h
  | cons t ts ih =>
    have hjudge := hp.judge (t := t)
    rw [readAll] at h
    split at h
    -- The token leaves more to be read, and the invariant holds of what is read by then.
    · next hv =>
      rw [hv] at hjudge
      simpa using ih hbefore hjudge h
    -- The token completes a statement, and the next one begins with no tokens.
    · next s hv =>
      rw [hv] at hjudge
      have hbefore' : DerivesProgram names.nameOf (us ++ (vs ++ [t])) (s :: before).reverse := by
        simpa using hbefore.concat hjudge
      simpa using ih hbefore' .start h
    · cases h
    · cases h

end Silly
