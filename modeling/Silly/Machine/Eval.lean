import Silly.Machine.Basic
import Silly.Value.Operation

/-!
# Evaluating expressions

An expression reads variables and makes strings, and does nothing else. Its evaluation takes the
environment as it is and hands on the heap alone, from left to right through its operands, whether
they succeed or not. The operands of an operator are all evaluated before the operator is applied.
-/

namespace Silly

/-- The text of a name. -/
def Interner.resolve (names : Interner) (x : Name) : Outcome String :=
  Outcome.ofOption (.name x.index) (names.text? x)

/-- A scope error as an error of the program, which gives the variable's text. -/
def ScopeError.stop (names : Interner) (e : ScopeError) : Stop :=
  match names.resolve e.name with
  | .error stop => stop
  | .ok x =>
    .error <|
      match e with
      | .undeclared _ => .undeclaredVariable x
      | .alreadyDeclared _ => .alreadyDeclared x
      | .unassigned _ => .unassignedVariable x

/-- The outcome of an operation on scopes as an outcome of the run. -/
def ScopeOutcome.outcome {α : Type} (names : Interner) : ScopeOutcome α → Outcome α
  | .ok a => .ok a
  | .error (.error e) => .error (e.stop names)
  | .error (.fault f) => .error (.fault f)

variable {σ H : Type} [StringStore σ H]

mutual
/-- **The value of an expression**, and the heap with the strings that were made on the way. -/
def Expr.eval (names : Interner) (env : Environment (Value σ)) :
    Expr → H → Outcome (Value σ) × H
  | .int n, h => (.ok (.int n), h)
  | .bool b, h => (.ok (.bool b), h)
  | .str text, h => BinaryOp.newString h (names.resolve text)
  | .var x, h => ((env.lookup x).outcome names, h)
  | .list items, h =>
    match evalItems names env items h with
    | (.ok vs, h) => (.ok (.list vs), h)
    | (.error e, h) => (.error e, h)
  | .unary op e, h =>
    match e.eval names env h with
    | (.ok v, h) => (op.apply h v, h)
    | (.error e, h) => (.error e, h)
  | .binary op l r, h =>
    match l.eval names env h with
    | (.ok a, h) =>
      match r.eval names env h with
      | (.ok b, h) => op.apply a b h
      | (.error e, h) => (.error e, h)
    | (.error e, h) => (.error e, h)

/-- The values of the items of a list. -/
def evalItems (names : Interner) (env : Environment (Value σ)) :
    List Expr → H → Outcome (List (Value σ)) × H
  | [], h => (.ok [], h)
  | e :: es, h =>
    match e.eval names env h with
    | (.ok v, h) =>
      match evalItems names env es h with
      | (.ok vs, h) => (.ok (v :: vs), h)
      | (.error e, h) => (.error e, h)
    | (.error e, h) => (.error e, h)
end

/-- A value as a boolean, which `operation` needs. -/
def Value.toBool (operation : Operation) : Value σ → Outcome Bool
  | .bool b => .ok b
  | v => Outcome.fail (.typeMismatch operation [v.kind])

/-- A value as an integer, which `operation` needs. -/
def Value.toInt (operation : Operation) : Value σ → Outcome Int64
  | .int n => .ok n
  | v => Outcome.fail (.typeMismatch operation [v.kind])

/-- **Evaluating an expression in a machine**, which keeps the strings. -/
def Machine.eval (names : Interner) (m : Machine σ H) (e : Expr) :
    Outcome (Value σ) × Machine σ H :=
  let ⟨heap, env, subs, printer, calls, maxCalls, log⟩ := m
  let (v, heap) := e.eval names env heap
  (v, ⟨heap, env, subs, printer, calls, maxCalls, log⟩)

end Silly
