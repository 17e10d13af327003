import Silly.Proofs.Display.WellFormed

/-!
# Chains of `elseif` and nested `if`s

An `if` with more than one condition can be written with one condition and an `else` body that holds
nothing but the `if` with the other conditions. A program *nests* as another one (`ProgramNests`) if this
is done in it wherever one likes: in any number of `if`s, after any of their conditions, again within an
`if` that was made in this way, and at any depth. Doing it in one place is the least that there is to
it, as each tree nests as itself (`StmtNests.refl`).

As in the grammar, no rule for a statement within a block is about `sub`. It may stand at the top level
only (`TopNests`), as it does in every program that was read from a source.
-/

namespace Silly

mutual
/-- **Statements within a block that differ in how conditions are chained.** -/
inductive StmtNests : Stmt → Stmt → Prop
  | assign (x : Name) (e : Expr) : StmtNests (.assign x e) (.assign x e)
  | declare (x : Name) (e : Expr) : StmtNests (.declare x e) (.declare x e)
  | print (e : Expr) : StmtNests (.print e) (.print e)
  | ifElse {arms arms' : Arms} : ArmsNests arms arms' → StmtNests (.ifElse arms) (.ifElse arms')
  | whileDo (c : Expr) {body body' : Block} : BlockNests body body' →
      StmtNests (.whileDo c body) (.whileDo c body')
  | repeatTimes (n : Expr) {body body' : Block} : BlockNests body body' →
      StmtNests (.repeatTimes n body) (.repeatTimes n body')
  | call (x : Name) : StmtNests (.call x) (.call x)
  | exit : StmtNests .exit .exit
  | breakLoop : StmtNests .breakLoop .breakLoop

/-- **Chains of which the second may end in a nested `if`.** -/
inductive ArmsNests : Arms → Arms → Prop
  | done : ArmsNests .done .done
  | otherwise {body body' : Block} : BlockNests body body' →
      ArmsNests (.otherwise body) (.otherwise body')
  | arm (c : Expr) {body body' : Block} {rest rest' : Arms} : BlockNests body body' →
      ArmsNests rest rest' → ArmsNests (.arm c body rest) (.arm c body' rest')
  /-- What follows the first condition, one or more of them, becomes an `if` in an `else` body. -/
  | nest (c c₂ : Expr) {body body' body₂ : Block} {rest arms' : Arms} : BlockNests body body' →
      ArmsNests (.arm c₂ body₂ rest) arms' →
      ArmsNests (.arm c body (.arm c₂ body₂ rest)) (.arm c body' (.otherwise [.ifElse arms']))

/-- The statements of two blocks. -/
inductive BlockNests : List Stmt → List Stmt → Prop
  | nil : BlockNests [] []
  | cons {s s' : Stmt} {ss ss' : List Stmt} : StmtNests s s' → BlockNests ss ss' →
      BlockNests (s :: ss) (s' :: ss')
end

/-- **Statements at the top level that differ in how conditions are chained.** -/
inductive TopNests : Stmt → Stmt → Prop
  | stmt {s s' : Stmt} : StmtNests s s' → TopNests s s'
  | sub (x : Name) {body body' : Block} : BlockNests body body' →
      TopNests (.sub x body) (.sub x body')

/-- **Programs that differ in how conditions are chained.** -/
inductive ProgramNests : Program → Program → Prop
  | nil : ProgramNests [] []
  | cons {s s' : Stmt} {p p' : Program} : TopNests s s' → ProgramNests p p' →
      ProgramNests (s :: p) (s' :: p')

/-! ### The same tree -/

section Refl

variable {names : Interner}

mutual
/-- A statement in which no subroutine is defined nests as itself. -/
theorem StmtNests.refl : ∀ {s : Stmt}, s.WellFormed names → StmtNests s s
  | .assign x e, _ => .assign x e
  | .declare x e, _ => .declare x e
  | .print e, _ => .print e
  | .ifElse _, h => .ifElse (ArmsNests.refl h.2)
  | .whileDo c _, h => .whileDo c (BlockNests.refl h.2)
  | .repeatTimes n _, h => .repeatTimes n (BlockNests.refl h.2)
  | .call x, _ => .call x
  | .exit, _ => .exit
  | .breakLoop, _ => .breakLoop

theorem ArmsNests.refl : ∀ {arms : Arms}, arms.WellFormed names → ArmsNests arms arms
  | .done, _ => .done
  | .otherwise _, h => .otherwise (BlockNests.refl h)
  | .arm c _ _, h => .arm c (BlockNests.refl h.2.1) (ArmsNests.refl h.2.2)

theorem BlockNests.refl : ∀ {ss : List Stmt}, blockWellFormed names ss → BlockNests ss ss
  | [], _ => .nil
  | _ :: _, h => .cons (StmtNests.refl h.1) (BlockNests.refl h.2)
end

/-- **A well-formed program nests as itself**, and so does every program that was read from a source. -/
theorem ProgramNests.refl {p : Program} (hp : p.WellFormed names) : ProgramNests p p := by
  induction p with
  | nil => exact .nil
  | cons s p ih =>
    obtain ⟨hs, hrest⟩ := List.forall_mem_cons.mp hp
    refine .cons ?_ (ih hrest)
    -- Only the definition of a subroutine is apart, since it stands at the top level alone.
    cases s with
    | sub x body => exact .sub x (BlockNests.refl hs.2)
    | _ => exact .stmt (@StmtNests.refl names _ hs)

end Refl

end Silly
