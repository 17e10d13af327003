import Silly.Tree.Basic

/-!
# The statements in a program

All statements of a program are listed here, those inside others among them, each with whether it stands
inside a loop (`blockParts`). What counts is the statement of a program or the body of a subroutine that
it belongs to: a loop around the definition of a subroutine is no loop around the statements of its body,
as these run where the subroutine is called.
-/

namespace Silly

mutual
/-- **A statement and those inside of it**, each with whether a loop stands around it. The statement
itself is `looped` or not. -/
def Stmt.parts (looped : Bool) : Stmt → List (Bool × Stmt)
  | .ifElse arms => (looped, .ifElse arms) :: arms.parts looped
  | .whileDo cond body => (looped, .whileDo cond body) :: blockParts true body
  | .repeatTimes count body => (looped, .repeatTimes count body) :: blockParts true body
  | .sub x body => (looped, .sub x body) :: blockParts false body
  | .assign x e => [(looped, .assign x e)]
  | .declare x e => [(looped, .declare x e)]
  | .print e => [(looped, .print e)]
  | .call x => [(looped, .call x)]
  | .exit => [(looped, .exit)]
  | .breakLoop => [(looped, .breakLoop)]

/-- The statements in the bodies of a chain of arms. -/
def Arms.parts (looped : Bool) : Arms → List (Bool × Stmt)
  | .done => []
  | .otherwise body => blockParts looped body
  | .arm _ body rest => blockParts looped body ++ rest.parts looped

/-- The statements of a block and those inside of them. -/
def blockParts (looped : Bool) : List Stmt → List (Bool × Stmt)
  | [] => []
  | s :: ss => s.parts looped ++ blockParts looped ss
end

/-- **All statements of a program.** -/
def Program.parts (p : Program) : List (Bool × Stmt) := blockParts false p

/-- A statement is one of its own parts. -/
theorem Stmt.mem_parts (s : Stmt) (looped : Bool) : (looped, s) ∈ s.parts looped := by
  cases s <;> exact List.mem_cons_self

end Silly
