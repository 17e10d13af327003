import Silly.Machine.Eval
import Silly.Value.Display

/-!
# Running statements step by step

A run is a sequence of small steps. What is still to be done is a list of tasks, the next one
first, and what has been done is summed up in a *signal*: the status with which the last statement
finished, or what stopped it. While the signal is `ok`, tasks are carried out. Any other signal
takes tasks off the list one at a time until it comes to one that heeds it:

* the rest of a block is dropped;
* a scope that is open is closed, and a call that is active is ended, whatever the signal;
* a loop turns `break` into `ok`, and is dropped by the other signals.

So every scope and every call ends by the one task that was put on the list when it began, however
the statements in between finish. Nothing else closes a scope or ends a call.
-/

namespace Silly

/-- **A task**: something still to be done. -/
inductive Task
  /-- Run the rest of a block. -/
  | run (rest : List Stmt)
  /-- Close the innermost scope. -/
  | leaveScope
  /-- End the innermost call. -/
  | leaveCall
  /-- Test the condition of a loop, and run its body as long as it holds. -/
  | whileDo (cond : Expr) (body : Block)
  /-- Run the body of a loop so many times more. -/
  | repeatTimes (left : Nat) (body : Block)

/-- **A point of a run**: what the last statement came to, what is still to be done, and the
machine. -/
structure Config (σ : Type := Handle) (H : Type := Heap) where
  signal : Outcome Status
  control : List Task
  machine : Machine σ H

variable {σ H : Type}

/-- Running a block in a scope of its own, before the tasks `k`. -/
def enterBlock (body : Block) (k : List Task) (m : Machine σ H) : Config σ H :=
  ⟨.ok .ok, .run body :: .leaveScope :: k, m.enterScope⟩

namespace Machine

variable (names : Interner)

/-- A new value for a variable. -/
def store (m : Machine σ H) (x : Name) (v : Value σ) : Outcome Unit × Machine σ H :=
  let ⟨heap, env, subs, printer, calls, maxCalls, log⟩ := m
  let (r, env) := env.store x v
  (r.outcome names, ⟨heap, env, subs, printer, calls, maxCalls, log⟩)

/-- A new variable. -/
def declare (m : Machine σ H) (x : Name) : Outcome Unit × Machine σ H :=
  let ⟨heap, env, subs, printer, calls, maxCalls, log⟩ := m
  let (r, env) := env.declare x
  (r.outcome names, ⟨heap, env, subs, printer, calls, maxCalls, log⟩)

/-- The statement came to nothing, and the signal says why. -/
def stopped (s : Stop) (k : List Task) (m : Machine σ H) : Config σ H := ⟨.error s, k, m⟩

/-- The statement is done. -/
def done (k : List Task) (m : Machine σ H) : Config σ H := ⟨.ok .ok, k, m⟩

variable [StringStore σ H]

/-- Evaluating an expression and storing its value. -/
def evalStore (x : Name) (e : Expr) (k : List Task) (m : Machine σ H) : Config σ H :=
  match m.eval names e with
  | (.error s, m) => stopped s k m
  | (.ok v, m) =>
    match m.store names x v with
    | (.error s, m) => stopped s k m
    | (.ok (), m) => done k m

/-- **An assignment.** The variable has to be declared before its new value is computed. -/
def assign (x : Name) (e : Expr) (k : List Task) (m : Machine σ H) : Config σ H :=
  match m.env.isDeclared x with
  | .error f => stopped (.fault f) k m
  | .ok false => stopped ((ScopeError.undeclared x).stop names) k m
  | .ok true => evalStore names x e k m

/-- **A declaration.** The variable exists, without a value, when its first value is computed. -/
def declareStore (x : Name) (e : Expr) (k : List Task) (m : Machine σ H) : Config σ H :=
  match m.declare names x with
  | (.error s, m) => stopped s k m
  | (.ok (), m) => evalStore names x e k m

/-- A line of output. -/
def printValue (e : Expr) (k : List Task) (m : Machine σ H) : Config σ H :=
  match m.eval names e with
  | (.error s, m) => stopped s k m
  | (.ok v, m) =>
    match v.printed m.heap with
    | .error s => stopped s k m
    | .ok line => done k (m.print line)

/-- The value of a condition. -/
def test (operation : Operation) (m : Machine σ H) (e : Expr) : Outcome Bool × Machine σ H :=
  let (v, m) := m.eval names e
  (v.bind (·.toBool operation), m)

/-- **A `repeat` begins.** Its count is found once, and a negative count is none. -/
def beginRepeat (count : Expr) (body : Block) (k : List Task) (m : Machine σ H) : Config σ H :=
  match m.eval names count with
  | (.error s, m) => stopped s k m
  | (.ok v, m) =>
    match v.toInt .repeatCount with
    | .error s => stopped s k m
    | .ok n => done (.repeatTimes n.toInt.toNat body :: k) (m.note (.repeatTimes n))

/-- **A definition.** The subroutine belongs to the frame that is innermost now. -/
def define (x : Name) (body : Block) (k : List Task) (m : Machine σ H) : Config σ H :=
  match names.resolve x with
  | .error s => stopped s k m
  | .ok name =>
    if (m.subs.lookup x).isSome then stopped (.error (.alreadyDefined name)) k m
    else
      done k ((m.note (.defineSubroutine name)).addSub x ⟨body, m.env.current⟩)

/-- **A call of a subroutine**, if there is one of that name. The body runs in a new frame inside
the frame that the subroutine belongs to, so it does not see the variables of the caller. -/
def invoke (name : String) (k : List Task) (m : Machine σ H) : Option Subroutine → Config σ H
  | none => stopped (.error (.undefinedSubroutine name)) k (m.note .exitCall)
  | some sub =>
    if m.maxCalls ≤ m.calls then
      stopped (.error (.recursionLimitExceeded m.maxCalls)) k (m.note .exitCall)
    else
      match m.enterScopeIn sub.scope with
      | (.error s, m) => stopped s k (m.note .exitCall)
      | (.ok (), m) => ⟨.ok .ok, .run sub.body :: .leaveScope :: .leaveCall :: k, m.beginCall⟩

/-- **A call.** -/
def call (x : Name) (k : List Task) (m : Machine σ H) : Config σ H :=
  match names.resolve x with
  | .error s => stopped s k m
  | .ok name => invoke name k ((m.note (.callSubroutine name)).note .enterCall) (m.subs.lookup x)

end Machine

variable [StringStore σ H]

/-- **The arms of an `if`.** The first one whose condition holds runs. -/
def Arms.start (names : Interner) (k : List Task) : Arms → Machine σ H → Config σ H
  | .done, m => Machine.done k m
  | .otherwise body, m => enterBlock body k m
  | .arm cond body rest, m =>
    match m.test names .ifCondition cond with
    | (.error s, m) => Machine.stopped s k m
    | (.ok true, m) => enterBlock body k m
    | (.ok false, m) => rest.start names k m

/-- **A statement begins**, before the tasks `k`. -/
def Stmt.start (names : Interner) (k : List Task) (m : Machine σ H) : Stmt → Config σ H
  | .assign x e => Machine.assign names x e k m
  | .declare x e => Machine.declareStore names x e k m
  | .print e => Machine.printValue names e k m
  | .ifElse arms => arms.start names k m
  | .whileDo cond body => Machine.done (.whileDo cond body :: k) m
  | .repeatTimes count body => Machine.beginRepeat names count body k m
  | .sub x body => Machine.define names x body k m
  | .call x => Machine.call names x k m
  | .exit => ⟨.ok .exit, k, m⟩
  | .breakLoop => ⟨.ok .break, k, m⟩

/-- **One task**, when the last statement came to `signal`, before the tasks `k`. -/
def Task.step (names : Interner) (signal : Outcome Status) (k : List Task)
    (m : Machine σ H) : Task → Config σ H
  | .run rest =>
    match signal, rest with
    | .ok .ok, s :: rest => s.start names (.run rest :: k) m
    | _, _ => ⟨signal, k, m⟩
  | .leaveScope => ⟨signal, k, m.leaveScope⟩
  | .leaveCall => ⟨signal, k, m.leaveCall⟩
  | .whileDo cond body =>
    match signal with
    | .ok .ok =>
      match m.test names .whileCondition cond with
      | (.error s, m) => Machine.stopped s k m
      | (.ok true, m) => enterBlock body (.whileDo cond body :: k) m
      | (.ok false, m) => Machine.done k m
    | .ok .break => Machine.done k m
    | _ => ⟨signal, k, m⟩
  | .repeatTimes left body =>
    match signal, left with
    | .ok .ok, left + 1 => enterBlock body (.repeatTimes left body :: k) m
    | .ok .ok, 0 | .ok .break, _ => Machine.done k m
    | _, _ => ⟨signal, k, m⟩

end Silly
