import Silly.Machine.Step

/-!
# Runs

A run takes steps until nothing is left to do. A program may run for ever, so a run is given *fuel*,
a bound on the number of its steps. Running out of fuel is not an answer about the program. The run
then stands at some point from which it can go on (`Progress.running`).
-/

namespace Silly

/-- **How far a run has come.** -/
inductive Progress (σ : Type := Handle) (H : Type := Heap)
  /-- Nothing is left to do. -/
  | finished (result : Outcome Status) (m : Machine σ H)
  /-- The fuel is used up. -/
  | running (c : Config σ H)

/-- The machine that a run has come to. -/
def Progress.machine {σ H : Type} : Progress σ H → Machine σ H
  | .finished _ m => m
  | .running c => c.machine

/-- The tasks that are left where a run has come to. -/
def Progress.control {σ H : Type} : Progress σ H → List Task
  | .finished _ _ => []
  | .running c => c.control

variable {σ H : Type} [StringStore σ H]

/-- **Taking steps** until nothing is left to do or the fuel is used up. -/
def Config.run (names : Interner) : Nat → Config σ H → Progress σ H
  | _, ⟨signal, [], m⟩ => .finished signal m
  | 0, c => .running c
  | fuel + 1, ⟨signal, task :: k, m⟩ => Config.run names fuel (task.step names signal k m)

@[simp] theorem Config.run_nil (names : Interner) (fuel : Nat) (signal : Outcome Status)
    (m : Machine σ H) : Config.run names fuel ⟨signal, [], m⟩ = .finished signal m := by
  cases fuel <;> rfl

@[simp] theorem Config.run_zero_cons (names : Interner) (signal : Outcome Status) (task : Task)
    (k : List Task) (m : Machine σ H) :
    Config.run names 0 ⟨signal, task :: k, m⟩ = .running ⟨signal, task :: k, m⟩ := rfl

@[simp] theorem Config.run_succ_cons (names : Interner) (fuel : Nat) (signal : Outcome Status)
    (task : Task) (k : List Task) (m : Machine σ H) :
    Config.run names (fuel + 1) ⟨signal, task :: k, m⟩ =
      Config.run names fuel (task.step names signal k m) := rfl

namespace Machine

/-- The point at which the statements `ss` are to run in the innermost frame. -/
def load (m : Machine σ H) (ss : List Stmt) : Config σ H := ⟨.ok .ok, [.run ss], m⟩

/-- **Executing one statement** in the innermost frame. -/
def execute (names : Interner) (fuel : Nat) (m : Machine σ H) (s : Stmt) : Progress σ H :=
  (m.load [s]).run names fuel

/-- Executing a block in a scope of its own. -/
def executeBody (names : Interner) (fuel : Nat) (m : Machine σ H) (body : Block) : Progress σ H :=
  (enterBlock body [] m).run names fuel

/-- The log says so if a program ends before its last statement. -/
def halt (status : Status) (m : Machine σ H) : Machine σ H :=
  if status = .ok then m else m.note (.programHalted status)

/-- **Running a program** in the innermost frame. It ends with the first statement that does not
finish with `ok`. -/
def run (names : Interner) (fuel : Nat) (m : Machine σ H) (p : Program) : Progress σ H :=
  match (m.load p).run names fuel with
  | .finished (.ok status) m => .finished (.ok status) (m.halt status)
  | progress => progress

end Machine

end Silly
