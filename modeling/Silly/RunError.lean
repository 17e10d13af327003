import Silly.Integer
import Silly.Token.Operator
import Silly.Value.Basic

/-!
# What ends a run early

A run can end early because the program is at fault (`RunError`) or because the interpreter is
(`Fault`). A fault is a handle, a name, a frame or a place in a list that is used and does not exist.
No run of a program that was read from a source has one, which is a fact about the interpreter and not
an assumption: each place where one of them is looked up has a branch for it.
-/

namespace Silly

/-- An operator of either arity. -/
inductive Operator
  | unary (op : UnaryOp)
  | binary (op : BinaryOp)
  deriving DecidableEq

/-- The operator as it is written. -/
def Operator.symbol : Operator → String
  | unary op => op.symbol
  | binary op => op.symbol

/-- **What can be given a value of the wrong kind.** -/
inductive Operation
  | operator (op : Operator)
  /-- A comparison of two values, or of two items of lists. -/
  | comparison
  | ifCondition
  | whileCondition
  | repeatCount
  deriving DecidableEq

/-- The operation as messages show it. -/
def Operation.text : Operation → String
  | operator op => "`" ++ op.symbol ++ "`"
  | comparison => "comparison"
  | ifCondition => "if condition"
  | whileCondition => "while condition"
  | repeatCount => "repeat count"

/-- **Why a program fails.** -/
inductive RunError
  /-- A variable is used that no visible scope declares. -/
  | undeclaredVariable (name : String)
  /-- A variable is declared a second time in one scope. -/
  | alreadyDeclared (name : String)
  /-- A subroutine is defined a second time. The language has only one error for this and for a second
  declaration of a variable, with one message. It is split here so that each of them can be excluded by
  itself: no expression and no variable raises this one, as only a definition can. -/
  | alreadyDefined (name : String)
  /-- A variable is read that was never given a value. -/
  | unassignedVariable (name : String)
  /-- An operation is given values of the kinds `found`. -/
  | typeMismatch (operation : Operation) (found : List Kind)
  | divisionByZero (op : BinaryOp)
  | indexOutOfRange (index : Int64) (length : Nat)
  | integerOverflow (op : Operator)
  /-- A subroutine is called that is not defined. -/
  | undefinedSubroutine (name : String)
  | recursionLimitExceeded (limit : Nat)
  deriving DecidableEq

namespace RunError

/-- The error in full. -/
def message : RunError → String
  | undeclaredVariable x => "variable `" ++ x ++ "` is not declared"
  | alreadyDeclared x | alreadyDefined x =>
    "variable `" ++ x ++ "` is already declared in this scope"
  | unassignedVariable x => "variable `" ++ x ++ "` is declared but has no value"
  | typeMismatch operation found =>
    "type mismatch: " ++ operation.text ++ " does not accept " ++
      " and ".intercalate (found.map (·.text))
  | divisionByZero op => "division by zero in `" ++ op.symbol ++ "`"
  | indexOutOfRange i n =>
    "index " ++ Integer.text i ++ " is out of range for length " ++ toString n
  | integerOverflow op => "integer overflow in `" ++ op.symbol ++ "`"
  | undefinedSubroutine x => "subroutine `" ++ x ++ "` is not defined"
  | recursionLimitExceeded n => "subroutine calls nested deeper than " ++ toString n

end RunError

/-- **Why the interpreter fails**: it looks up something that does not exist. -/
inductive Fault
  /-- A handle that the heap has not given out. -/
  | handle (index : Nat)
  /-- A name that the table of names has not given out. -/
  | name (index : Nat)
  /-- A frame that is not live. -/
  | frame (index : Nat)
  /-- A place that a list does not have. -/
  | item (index : Nat)
  /-- A chain of parents that does not end. -/
  | parents
  deriving DecidableEq

/-- The fault in full. -/
def Fault.message : Fault → String
  | handle i => "internal fault: no string " ++ toString i
  | name i => "internal fault: no name " ++ toString i
  | frame i => "internal fault: no frame " ++ toString i
  | item i => "internal fault: no item " ++ toString i
  | parents => "internal fault: endless chain of frames"

/-- **What ends a run early.** -/
inductive Stop
  | error (e : RunError)
  | fault (f : Fault)
  deriving DecidableEq

/-- The outcome of a part of a run. -/
abbrev Outcome (α : Type) := Except Stop α

namespace Outcome

/-- The program fails with `e`. -/
def fail {α : Type} (e : RunError) : Outcome α := .error (.error e)

/-- The interpreter fails with `f` unless there is a value. -/
def ofOption {α : Type} (f : Fault) : Option α → Outcome α
  | some a => .ok a
  | none => .error (.fault f)

end Outcome

/-- The text of a handle. -/
def Heap.text (h : Heap) (s : Handle) : Outcome String :=
  Outcome.ofOption (.handle s.index) (h.text? s)

end Silly
