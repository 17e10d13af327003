import Silly.Tree.Display

/-!
# Trees that differ in their names

A tree holds numbers for names, and the table behind them decides which. The same program read with
two tables gives two trees that differ in these numbers and in nothing else. Such trees are *alike*:
wherever the one has a name, the other has one that `R` relates to it.

As in the grammar, no rule for a statement within a block is about `sub`. It may stand at the top
level only (`TopAlike`), so that two trees are alike says as well that no subroutine is defined
inside another statement.
-/

namespace Silly

variable (R : Name → Name → Prop)

mutual
/-- **Expressions that differ in their names.** -/
inductive ExprAlike : Expr → Expr → Prop
  | int (n : Int64) : ExprAlike (.int n) (.int n)
  | bool (b : Bool) : ExprAlike (.bool b) (.bool b)
  | str {x x' : Name} : R x x' → ExprAlike (.str x) (.str x')
  | var {x x' : Name} : R x x' → ExprAlike (.var x) (.var x')
  | list {es es' : List Expr} : ItemsAlike es es' → ExprAlike (.list es) (.list es')
  | unary (op : UnaryOp) {e e' : Expr} : ExprAlike e e' → ExprAlike (.unary op e) (.unary op e')
  | binary (op : BinaryOp) {l l' r r' : Expr} : ExprAlike l l' → ExprAlike r r' →
      ExprAlike (.binary op l r) (.binary op l' r')

/-- The items of two lists. -/
inductive ItemsAlike : List Expr → List Expr → Prop
  | nil : ItemsAlike [] []
  | cons {e e' : Expr} {es es' : List Expr} : ExprAlike e e' → ItemsAlike es es' →
      ItemsAlike (e :: es) (e' :: es')
end

mutual
/-- **Statements within a block that differ in their names.** -/
inductive StmtAlike : Stmt → Stmt → Prop
  | assign {x x' : Name} {e e' : Expr} : R x x' → ExprAlike R e e' →
      StmtAlike (.assign x e) (.assign x' e')
  | declare {x x' : Name} {e e' : Expr} : R x x' → ExprAlike R e e' →
      StmtAlike (.declare x e) (.declare x' e')
  | print {e e' : Expr} : ExprAlike R e e' → StmtAlike (.print e) (.print e')
  | ifElse {arms arms' : Arms} : ArmsAlike arms arms' → StmtAlike (.ifElse arms) (.ifElse arms')
  | whileDo {c c' : Expr} {body body' : Block} : ExprAlike R c c' → BlockAlike body body' →
      StmtAlike (.whileDo c body) (.whileDo c' body')
  | repeatTimes {n n' : Expr} {body body' : Block} : ExprAlike R n n' → BlockAlike body body' →
      StmtAlike (.repeatTimes n body) (.repeatTimes n' body')
  | call {x x' : Name} : R x x' → StmtAlike (.call x) (.call x')
  | exit : StmtAlike .exit .exit
  | breakLoop : StmtAlike .breakLoop .breakLoop

/-- The arms of two `if`s. -/
inductive ArmsAlike : Arms → Arms → Prop
  | done : ArmsAlike .done .done
  | otherwise {body body' : Block} : BlockAlike body body' →
      ArmsAlike (.otherwise body) (.otherwise body')
  | arm {c c' : Expr} {body body' : Block} {rest rest' : Arms} : ExprAlike R c c' →
      BlockAlike body body' → ArmsAlike rest rest' → ArmsAlike (.arm c body rest) (.arm c' body' rest')

/-- The statements of two blocks. -/
inductive BlockAlike : List Stmt → List Stmt → Prop
  | nil : BlockAlike [] []
  | cons {s s' : Stmt} {ss ss' : List Stmt} : StmtAlike s s' → BlockAlike ss ss' →
      BlockAlike (s :: ss) (s' :: ss')
end

/-- **Statements at the top level that differ in their names.** -/
inductive TopAlike : Stmt → Stmt → Prop
  | stmt {s s' : Stmt} : StmtAlike R s s' → TopAlike s s'
  | sub {x x' : Name} {body body' : Block} : R x x' → BlockAlike R body body' →
      TopAlike (.sub x body) (.sub x' body')

/-- **Programs that differ in their names.** -/
inductive ProgramAlike : Program → Program → Prop
  | nil : ProgramAlike [] []
  | cons {s s' : Stmt} {p p' : Program} : TopAlike R s s' → ProgramAlike p p' →
      ProgramAlike (s :: p) (s' :: p')

variable {R}

/-! ### Other relations of names -/

section Mono

variable {R' : Name → Name → Prop}

mutual
/-- Alike expressions are alike by every relation that allows more. -/
theorem ExprAlike.mono (hR : ∀ x x', R x x' → R' x x') {e e' : Expr} :
    ExprAlike R e e' → ExprAlike R' e e'
  | .int n => .int n
  | .bool b => .bool b
  | .str h => .str (hR _ _ h)
  | .var h => .var (hR _ _ h)
  | .list h => .list (h.mono hR)
  | .unary op h => .unary op (h.mono hR)
  | .binary op hl hr => .binary op (hl.mono hR) (hr.mono hR)

theorem ItemsAlike.mono (hR : ∀ x x', R x x' → R' x x') {es es' : List Expr} :
    ItemsAlike R es es' → ItemsAlike R' es es'
  | .nil => .nil
  | .cons h hs => .cons (h.mono hR) (hs.mono hR)
end

mutual
/-- Alike statements are alike by every relation that allows more. -/
theorem StmtAlike.mono (hR : ∀ x x', R x x' → R' x x') {s s' : Stmt} :
    StmtAlike R s s' → StmtAlike R' s s'
  | .assign hx he => .assign (hR _ _ hx) (he.mono hR)
  | .declare hx he => .declare (hR _ _ hx) (he.mono hR)
  | .print he => .print (he.mono hR)
  | .ifElse h => .ifElse (h.mono hR)
  | .whileDo hc hb => .whileDo (hc.mono hR) (hb.mono hR)
  | .repeatTimes hn hb => .repeatTimes (hn.mono hR) (hb.mono hR)
  | .call hx => .call (hR _ _ hx)
  | .exit => .exit
  | .breakLoop => .breakLoop

theorem ArmsAlike.mono (hR : ∀ x x', R x x' → R' x x') {arms arms' : Arms} :
    ArmsAlike R arms arms' → ArmsAlike R' arms arms'
  | .done => .done
  | .otherwise hb => .otherwise (hb.mono hR)
  | .arm hc hb hr => .arm (hc.mono hR) (hb.mono hR) (hr.mono hR)

theorem BlockAlike.mono (hR : ∀ x x', R x x' → R' x x') {ss ss' : List Stmt} :
    BlockAlike R ss ss' → BlockAlike R' ss ss'
  | .nil => .nil
  | .cons h hs => .cons (h.mono hR) (hs.mono hR)
end

/-- **Alike programs** are alike by every relation that allows more. -/
theorem ProgramAlike.mono (hR : ∀ x x', R x x' → R' x x') {p p' : Program}
    (h : ProgramAlike R p p') : ProgramAlike R' p p' := by
  induction h with
  | nil => exact .nil
  | cons h _ ih =>
    refine .cons ?_ ih
    -- A statement is at the top level itself, or it is a subroutine, whose body has no other.
    cases h with
    | stmt h => exact .stmt (h.mono hR)
    | sub hx hb => exact .sub (hR _ _ hx) (hb.mono hR)

end Mono

/-! ### The same tree -/

mutual
/-- An expression is alike to itself where every name is related to itself. -/
theorem ExprAlike.refl (hR : ∀ x, R x x) : ∀ e : Expr, ExprAlike R e e
  | .int n => .int n
  | .bool b => .bool b
  | .str x => .str (hR x)
  | .var x => .var (hR x)
  | .list es => .list (ItemsAlike.refl hR es)
  | .unary op e => .unary op (ExprAlike.refl hR e)
  | .binary op l r => .binary op (ExprAlike.refl hR l) (ExprAlike.refl hR r)

theorem ItemsAlike.refl (hR : ∀ x, R x x) : ∀ es : List Expr, ItemsAlike R es es
  | [] => .nil
  | e :: es => .cons (ExprAlike.refl hR e) (ItemsAlike.refl hR es)
end

/-! ### The texts of alike trees

Where related names have the same text, alike trees have the same text. -/

section Display

variable {text text' : Name → String}

mutual
/-- Alike expressions have the same text. -/
theorem ExprAlike.display_eq (htext : ∀ x x', R x x' → text x = text' x') {e e' : Expr} :
    ExprAlike R e e' → e.display text = e'.display text'
  | .int _ | .bool _ => rfl
  | .str h => by rw [Expr.display, Expr.display, htext _ _ h]
  | .var h => htext _ _ h
  | .list h => by rw [Expr.display, Expr.display, h.display_eq htext]
  | .unary _ h => by rw [Expr.display, Expr.display, h.display_eq htext]
  | .binary _ hl hr => by rw [Expr.display, Expr.display, hl.display_eq htext, hr.display_eq htext]

theorem ItemsAlike.display_eq (htext : ∀ x x', R x x' → text x = text' x') {es es' : List Expr} :
    ItemsAlike R es es' → displayItems text es = displayItems text' es'
  | .nil => rfl
  | .cons h hs => by rw [displayItems, displayItems, h.display_eq htext, hs.display_eq htext]
end

mutual
/-- Alike statements have the same lines. -/
theorem StmtAlike.lines_eq (htext : ∀ x x', R x x' → text x = text' x') (depth : Nat)
    {s s' : Stmt} : StmtAlike R s s' → s.lines text depth = s'.lines text' depth
  | .assign hx he => by rw [Stmt.lines, Stmt.lines, htext _ _ hx, he.display_eq htext]
  | .declare hx he => by rw [Stmt.lines, Stmt.lines, htext _ _ hx, he.display_eq htext]
  | .print he => by rw [Stmt.lines, Stmt.lines, he.display_eq htext]
  | .ifElse h => by rw [Stmt.lines, Stmt.lines, h.firstLines_eq htext depth]
  | .whileDo hc hb => by
    rw [Stmt.lines, Stmt.lines, hc.display_eq htext, hb.blockLines_eq htext (depth + 1)]
  | .repeatTimes hn hb => by
    rw [Stmt.lines, Stmt.lines, hn.display_eq htext, hb.blockLines_eq htext (depth + 1)]
  | .call hx => by rw [Stmt.lines, Stmt.lines, htext _ _ hx]
  | .exit | .breakLoop => rfl

/-- So have alike chains of arms, from their first arm on. -/
theorem ArmsAlike.firstLines_eq (htext : ∀ x x', R x x' → text x = text' x') (depth : Nat)
    {arms arms' : Arms} :
    ArmsAlike R arms arms' → arms.firstLines text depth = arms'.firstLines text' depth
  | .done => rfl
  | .otherwise hb => by rw [Arms.firstLines, Arms.firstLines, hb.blockLines_eq htext (depth + 1)]
  | .arm hc hb hr => by
    rw [Arms.firstLines, Arms.firstLines, hc.display_eq htext, hb.blockLines_eq htext (depth + 1),
      hr.furtherLines_eq htext depth]

/-- So have they after their first arm. -/
theorem ArmsAlike.furtherLines_eq (htext : ∀ x x', R x x' → text x = text' x') (depth : Nat)
    {arms arms' : Arms} :
    ArmsAlike R arms arms' → arms.furtherLines text depth = arms'.furtherLines text' depth
  | .done => rfl
  | .otherwise hb => by
    rw [Arms.furtherLines, Arms.furtherLines, hb.blockLines_eq htext (depth + 1)]
  | .arm hc hb hr => by
    rw [Arms.furtherLines, Arms.furtherLines, hc.display_eq htext, hb.blockLines_eq htext (depth + 1),
      hr.furtherLines_eq htext depth]

/-- So have alike blocks. -/
theorem BlockAlike.blockLines_eq (htext : ∀ x x', R x x' → text x = text' x') (depth : Nat)
    {ss ss' : List Stmt} : BlockAlike R ss ss' → blockLines text depth ss = blockLines text' depth ss'
  | .nil => rfl
  | .cons h hs => by
    rw [blockLines, blockLines, h.lines_eq htext depth, hs.blockLines_eq htext depth]
end

/-- **Statements at the top level** have the same lines if they are alike. -/
theorem TopAlike.lines_eq (htext : ∀ x x', R x x' → text x = text' x') (depth : Nat) {s s' : Stmt}
    (h : TopAlike R s s') : s.lines text depth = s'.lines text' depth := by
  cases h with
  | stmt h => exact h.lines_eq htext depth
  | sub hx hb => rw [Stmt.lines, Stmt.lines, htext _ _ hx, hb.blockLines_eq htext (depth + 1)]

/-- **Alike programs have the same canonical text.** -/
theorem ProgramAlike.display_eq (htext : ∀ x x', R x x' → text x = text' x') {p p' : Program}
    (h : ProgramAlike R p p') : p.display text = p'.display text' := by
  have hlines : blockLines text 0 p = blockLines text' 0 p' := by
    induction h with
    | nil => rfl
    | cons h _ ih => rw [blockLines, blockLines, h.lines_eq htext 0, ih]
  rw [Program.display, Program.display, hlines]

end Display

end Silly
