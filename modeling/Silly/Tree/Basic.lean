import Silly.Name
import Silly.Token.Operator

/-!
# Program trees

The trees that programs are read into. A tree holds names and not texts, so it means something
only together with the table that gave out its names.

An `if` is kept as a chain of arms. A chain begins with its first condition and each further arm
hangs below the one before it, as it is reached only when all conditions before it have failed;
the chain ends in an `else` body or in nothing. This makes the part of an `if` that comes after a
failed condition a chain again.
-/

namespace Silly

/-- **Expressions.** -/
inductive Expr
  | int (n : Int64)
  | bool (b : Bool)
  /-- A string literal, by the name of the text between its quotes. -/
  | str (text : Name)
  | var (name : Name)
  | list (items : List Expr)
  | unary (op : UnaryOp) (operand : Expr)
  | binary (op : BinaryOp) (left right : Expr)

mutual
/-- **Statements.** -/
inductive Stmt
  /-- A new value for a variable. -/
  | assign (name : Name) (value : Expr)
  /-- A new variable with its first value. -/
  | declare (name : Name) (value : Expr)
  | print (value : Expr)
  | ifElse (arms : Arms)
  | whileDo (cond : Expr) (body : List Stmt)
  | repeatTimes (count : Expr) (body : List Stmt)
  /-- A subroutine's definition. -/
  | sub (name : Name) (body : List Stmt)
  | call (name : Name)
  | exit
  | breakLoop

/-- **The arms of an `if`**: conditions with their bodies, each reached when those before it have
failed, and at the end an `else` body or nothing. -/
inductive Arms
  | done
  | otherwise (body : List Stmt)
  | arm (cond : Expr) (body : List Stmt) (rest : Arms)
end

/-- The statements between two keywords, which run in a scope of their own. -/
abbrev Block := List Stmt

/-- A whole program. -/
abbrev Program := List Stmt

namespace Arms

/-- The end of a chain: an `else` body, or nothing. -/
def ofElse : Option Block → Arms
  | none => done
  | some body => otherwise body

/-- The chain of the given conditions and bodies that ends in `last`. -/
def ofBranches (branches : List (Expr × Block)) (last : Arms) : Arms :=
  branches.foldr (fun b rest => arm b.1 b.2 rest) last

/-- The conditions of a chain with their bodies. -/
def branches : Arms → List (Expr × Block)
  | done | otherwise _ => []
  | arm cond body rest => (cond, body) :: rest.branches

/-- The `else` body of a chain. -/
def else? : Arms → Option Block
  | done => none
  | otherwise body => some body
  | arm _ _ rest => rest.else?

theorem branches_ofBranches (bs : List (Expr × Block)) (last : Option Block) :
    (ofBranches bs (ofElse last)).branches = bs := by
  induction bs with
  | nil => cases last <;> rfl
  | cons b bs ih => simpa [ofBranches, branches] using ih

theorem else?_ofBranches (bs : List (Expr × Block)) (last : Option Block) :
    (ofBranches bs (ofElse last)).else? = last := by
  induction bs with
  | nil => cases last <;> rfl
  | cons b bs ih => simpa [ofBranches, else?] using ih

/-- A chain is given by its branches and its `else` body. -/
theorem ofBranches_branches : ∀ arms : Arms, ofBranches arms.branches (ofElse arms.else?) = arms
  | done | otherwise _ => rfl
  | arm cond body rest => congrArg (arm cond body) (ofBranches_branches rest)

end Arms

end Silly
