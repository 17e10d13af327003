import Silly.Proofs.Machine.Limit
import Silly.Proofs.Machine.Safety

/-!
# The rules by which a machine runs

All that a step can do is listed here, one rule for each way in which it can end (`Task.Leaves`). The
rules of a statement are the ones of a task that begins it (`Stmt.Leaves`). A rule says what has been
computed on the way, what the step comes to, and which tasks it puts before those that are left. It says
nothing about these, as no step looks at them.

Every step is by some rule (`Task.comesTo_step`). So what all rules preserve holds at every point of a run
(`Config.run_preserves`), and what stops a run stopped the step at some point of it
(`Config.exists_of_run_error`).
-/

namespace Silly

variable (names : Interner)

/-! ### Statements -/

/-- **Evaluating and storing.** -/
inductive Machine.Stores (m : Machine) (x : Name) (e : Expr) : Outcome Status → Machine → Prop
  -- An error before the value is there leaves the variable as it was.
  | unevaluated {s : Stop} {m₁ : Machine} : m.eval names e = (.error s, m₁) →
      Stores m x e (.error s) m₁
  | unstored {v : Value} {s : Stop} {m₁ m₂ : Machine} : m.eval names e = (.ok v, m₁) →
      m₁.store names x v = (.error s, m₂) → Stores m x e (.error s) m₂
  | stored {v : Value} {m₁ m₂ : Machine} : m.eval names e = (.ok v, m₁) →
      m₁.store names x v = (.ok (), m₂) → Stores m x e (.ok .ok) m₂

/-- **The arms of an `if`.** -/
inductive Arms.Leaves : Machine → Arms → Outcome Status → List Task → Machine → Prop
  | done {m : Machine} : Leaves m .done (.ok .ok) [] m
  | otherwise {m : Machine} {body : Block} :
      Leaves m (.otherwise body) (.ok .ok) [.run body, .leaveScope] m.enterScope
  -- Without the value of its condition an `if` runs no body.
  | untested {m m₁ : Machine} {cond : Expr} {body : Block} {rest : Arms} {s : Stop} :
      m.test names .ifCondition cond = (.error s, m₁) →
      Leaves m (.arm cond body rest) (.error s) [] m₁
  | holds {m m₁ : Machine} {cond : Expr} {body : Block} {rest : Arms} :
      m.test names .ifCondition cond = (.ok true, m₁) →
      Leaves m (.arm cond body rest) (.ok .ok) [.run body, .leaveScope] m₁.enterScope
  -- The arms after one whose condition fails are begun in the machine that is left by the test.
  | fails {m m₁ m' : Machine} {cond : Expr} {body : Block} {rest : Arms}
      {signal : Outcome Status} {ts : List Task} :
      m.test names .ifCondition cond = (.ok false, m₁) → Leaves m₁ rest signal ts m' →
      Leaves m (.arm cond body rest) signal ts m'

/-- **A call** of what the table of subroutines holds under a name. -/
inductive Machine.Invokes (name : String) (m : Machine) :
    Option Subroutine → Outcome Status → List Task → Machine → Prop
  | undefined : Invokes name m none (.error (.error (.undefinedSubroutine name))) []
      (m.note .exitCall)
  -- The limit is asked for before a frame is made.
  | limited {sub : Subroutine} : m.maxCalls ≤ m.calls →
      Invokes name m (some sub) (.error (.limit m.maxCalls)) [] (m.note .exitCall)
  | unscoped {sub : Subroutine} {s : Stop} {m₁ : Machine} : m.calls < m.maxCalls →
      m.enterScopeIn sub.scope = (.error s, m₁) →
      Invokes name m (some sub) (.error s) [] (m₁.note .exitCall)
  | entered {sub : Subroutine} {m₁ : Machine} : m.calls < m.maxCalls →
      m.enterScopeIn sub.scope = (.ok (), m₁) →
      Invokes name m (some sub) (.ok .ok) [.run sub.body, .leaveScope, .leaveCall] m₁.beginCall

/-- **What a statement leaves** that begins in the machine `m`: what it comes to, the tasks that it puts
before others, and the machine. -/
inductive Stmt.Leaves (m : Machine) : Stmt → Outcome Status → List Task → Machine → Prop
  -- An assignment asks for the variable before it evaluates.
  | assignUnfound {x : Name} {e : Expr} {f : Fault} : m.env.isDeclared x = .error f →
      Leaves m (.assign x e) (.error (.fault f)) [] m
  | assignUndeclared {x : Name} {e : Expr} : m.env.isDeclared x = .ok false →
      Leaves m (.assign x e) (.error ((ScopeError.undeclared x).stop names)) [] m
  | assign {x : Name} {e : Expr} {signal : Outcome Status} {m' : Machine} :
      m.env.isDeclared x = .ok true → m.Stores names x e signal m' →
      Leaves m (.assign x e) signal [] m'
  -- A declaration declares first, so the variable is there, without a value, when it evaluates.
  | undeclared {x : Name} {e : Expr} {s : Stop} {m₁ : Machine} :
      m.declare names x = (.error s, m₁) → Leaves m (.declare x e) (.error s) [] m₁
  | declare {x : Name} {e : Expr} {signal : Outcome Status} {m₁ m' : Machine} :
      m.declare names x = (.ok (), m₁) → m₁.Stores names x e signal m' →
      Leaves m (.declare x e) signal [] m'
  | unevaluated {e : Expr} {s : Stop} {m₁ : Machine} : m.eval names e = (.error s, m₁) →
      Leaves m (.print e) (.error s) [] m₁
  | unprinted {e : Expr} {v : Value} {s : Stop} {m₁ : Machine} : m.eval names e = (.ok v, m₁) →
      v.printed m₁.heap = .error s → Leaves m (.print e) (.error s) [] m₁
  | print {e : Expr} {v : Value} {line : String} {m₁ : Machine} : m.eval names e = (.ok v, m₁) →
      v.printed m₁.heap = .ok line → Leaves m (.print e) (.ok .ok) [] (m₁.print line)
  | ifElse {arms : Arms} {signal : Outcome Status} {ts : List Task} {m' : Machine} :
      arms.Leaves names m signal ts m' → Leaves m (.ifElse arms) signal ts m'
  -- A `while` tests nothing when it begins: its own task does so, each time.
  | whileDo {cond : Expr} {body : Block} :
      Leaves m (.whileDo cond body) (.ok .ok) [.whileDo cond body] m
  | uncounted {count : Expr} {body : Block} {s : Stop} {m₁ : Machine} :
      m.eval names count = (.error s, m₁) → Leaves m (.repeatTimes count body) (.error s) [] m₁
  | countless {count : Expr} {body : Block} {v : Value} {s : Stop} {m₁ : Machine} :
      m.eval names count = (.ok v, m₁) → v.toInt .repeatCount = .error s →
      Leaves m (.repeatTimes count body) (.error s) [] m₁
  -- A count below zero is no time at all.
  | repeatTimes {count : Expr} {body : Block} {v : Value} {n : Int64} {m₁ : Machine} :
      m.eval names count = (.ok v, m₁) → v.toInt .repeatCount = .ok n →
      Leaves m (.repeatTimes count body) (.ok .ok) [.repeatTimes n.toInt.toNat body]
        (m₁.note (.repeatTimes n))
  | subUnnamed {x : Name} {body : Block} {s : Stop} : names.resolve x = .error s →
      Leaves m (.sub x body) (.error s) [] m
  | subDefined {x : Name} {body : Block} {name : String} : names.resolve x = .ok name →
      (m.subs.lookup x).isSome = true →
      Leaves m (.sub x body) (.error (.error (.alreadyDefined name))) [] m
  | sub {x : Name} {body : Block} {name : String} : names.resolve x = .ok name →
      m.subs.lookup x = none →
      Leaves m (.sub x body) (.ok .ok) []
        ((m.note (.defineSubroutine name)).addSub x ⟨body, m.env.current⟩)
  | callUnnamed {x : Name} {s : Stop} : names.resolve x = .error s →
      Leaves m (.call x) (.error s) [] m
  | call {x : Name} {name : String} {signal : Outcome Status} {ts : List Task} {m' : Machine} :
      names.resolve x = .ok name →
      ((m.note (.callSubroutine name)).note .enterCall).Invokes name (m.subs.lookup x) signal ts m' →
      Leaves m (.call x) signal ts m'
  | exit : Leaves m .exit (.ok .exit) [] m
  | breakLoop : Leaves m .breakLoop (.ok .break) [] m

/-! ### Tasks -/

/-- **What a task leaves**, when the last statement came to the first signal. The second one is what the
step comes to. -/
inductive Task.Leaves (m : Machine) :
    Task → Outcome Status → Outcome Status → List Task → Machine → Prop
  -- A statement is begun only if the one before it ended normally.
  | start {s : Stmt} {rest : List Stmt} {signal : Outcome Status} {ts : List Task} {m' : Machine} :
      s.Leaves names m signal ts m' →
      Leaves m (.run (s :: rest)) (.ok .ok) signal (ts ++ [.run rest]) m'
  | ended {signal : Outcome Status} : Leaves m (.run []) signal signal [] m
  -- After any other signal the statements that are left are dropped.
  | dropped {rest : List Stmt} {signal : Outcome Status} : signal ≠ .ok .ok →
      Leaves m (.run rest) signal signal [] m
  -- Scopes and calls end whatever has happened in them.
  | leaveScope {signal : Outcome Status} : Leaves m .leaveScope signal signal [] m.leaveScope
  | leaveCall {signal : Outcome Status} : Leaves m .leaveCall signal signal [] m.leaveCall
  | whileUntested {cond : Expr} {body : Block} {s : Stop} {m₁ : Machine} :
      m.test names .whileCondition cond = (.error s, m₁) →
      Leaves m (.whileDo cond body) (.ok .ok) (.error s) [] m₁
  | whileAgain {cond : Expr} {body : Block} {m₁ : Machine} :
      m.test names .whileCondition cond = (.ok true, m₁) →
      Leaves m (.whileDo cond body) (.ok .ok) (.ok .ok)
        [.run body, .leaveScope, .whileDo cond body] m₁.enterScope
  | whileOver {cond : Expr} {body : Block} {m₁ : Machine} :
      m.test names .whileCondition cond = (.ok false, m₁) →
      Leaves m (.whileDo cond body) (.ok .ok) (.ok .ok) [] m₁
  -- A `break` ends the loop around it and goes no further.
  | whileBreak {cond : Expr} {body : Block} :
      Leaves m (.whileDo cond body) (.ok .break) (.ok .ok) [] m
  -- An exit and an error go on past the loop.
  | whileLeft {cond : Expr} {body : Block} {signal : Outcome Status} : signal ≠ .ok .ok →
      signal ≠ .ok .break → Leaves m (.whileDo cond body) signal signal [] m
  | repeatAgain {left : Nat} {body : Block} :
      Leaves m (.repeatTimes (left + 1) body) (.ok .ok) (.ok .ok)
        [.run body, .leaveScope, .repeatTimes left body] m.enterScope
  | repeatOver {body : Block} : Leaves m (.repeatTimes 0 body) (.ok .ok) (.ok .ok) [] m
  | repeatBreak {left : Nat} {body : Block} :
      Leaves m (.repeatTimes left body) (.ok .break) (.ok .ok) [] m
  | repeatLeft {left : Nat} {body : Block} {signal : Outcome Status} : signal ≠ .ok .ok →
      signal ≠ .ok .break → Leaves m (.repeatTimes left body) signal signal [] m

/-! ### What is computed on the way -/

namespace Machine

variable {names} {m m₁ : Machine}

/-- An evaluation may change the heap. -/
theorem eq_of_eval {e : Expr} {r : Outcome Value} (h : m.eval names e = (r, m₁)) :
    ∃ heap, m₁ = { m with heap := heap } := by
  cases h
  exact ⟨_, rfl⟩

/-- A test may change the heap, as the evaluation in it does. -/
theorem eq_of_test {operation : Operation} {e : Expr} {r : Outcome Bool}
    (h : m.test names operation e = (r, m₁)) : ∃ heap, m₁ = { m with heap := heap } := by
  cases h
  exact ⟨_, rfl⟩

/-- Storing changes the environment alone, and comes to what it comes to there. -/
theorem eq_of_store {x : Name} {v : Value} {r : Outcome Unit} (h : m.store names x v = (r, m₁)) :
    r = (m.env.store x v).1.outcome names ∧ m₁ = { m with env := (m.env.store x v).2 } := by
  cases h
  exact ⟨rfl, rfl⟩

theorem eq_of_declare {x : Name} {r : Outcome Unit} (h : m.declare names x = (r, m₁)) :
    r = (m.env.declare x).1.outcome names ∧ m₁ = { m with env := (m.env.declare x).2 } := by
  cases h
  exact ⟨rfl, rfl⟩

/-- A frame is opened inside a frame that is live. -/
theorem eq_of_enterScopeIn {parent : FrameId} (h : m.enterScopeIn parent = (.ok (), m₁)) :
    m.env.live.contains parent = true ∧
      m₁ = { m with
        env := m.env.opened parent, log := .beginScope (m.env.opened parent).depth :: m.log } := by
  obtain ⟨heap, env, subs, printer, calls, maxCalls, log⟩ := m
  rw [enterScopeIn, Environment.beginScopeIn_eq] at h
  -- The frame in which the scope is opened is live, or the arena refuses it.
  by_cases hparent : env.live.contains parent = true
  · rw [if_pos hparent] at h
    cases h
    exact ⟨hparent, rfl⟩
  · rw [if_neg hparent] at h
    cases h

/-- Or else there is a fault, and nothing has changed. -/
theorem eq_of_enterScopeIn_error {parent : FrameId} {s : Stop}
    (h : m.enterScopeIn parent = (.error s, m₁)) : (∃ f, s = .fault f) ∧ m₁ = m := by
  obtain ⟨heap, env, subs, printer, calls, maxCalls, log⟩ := m
  rw [enterScopeIn, Environment.beginScopeIn_eq] at h
  by_cases hparent : env.live.contains parent = true
  · rw [if_pos hparent] at h
    cases h
  · rw [if_neg hparent] at h
    cases h
    exact ⟨⟨_, rfl⟩, rfl⟩

/-- An operation on scopes succeeds in the run if it does. -/
theorem eq_ok_of_outcome {α : Type} {r : ScopeOutcome α} {a : α} (h : r.outcome names = .ok a) :
    r = .ok a := by
  -- An error of scopes stays an error in the run, whichever of the two it is.
  rcases r with (_ | _) | a'
  · cases h
  · cases h
  · exact congrArg _ (Except.ok.inj h)

/-- A declaration that succeeds. -/
theorem declare_of_ok {x : Name} (h : m.declare names x = (.ok (), m₁)) :
    m.env.declare x = (.ok (), m₁.env) := by
  obtain ⟨hr, rfl⟩ := eq_of_declare h
  exact Prod.ext (eq_ok_of_outcome hr.symm) rfl

/-- A value that is stored. -/
theorem store_of_ok {x : Name} {v : Value} (h : m.store names x v = (.ok (), m₁)) :
    m.env.store x v = (.ok (), m₁.env) := by
  obtain ⟨hr, rfl⟩ := eq_of_store h
  exact Prod.ext (eq_ok_of_outcome hr.symm) rfl

end Machine

/-! ### Every step is by a rule -/

/-- **What `f` comes to before any tasks**, by one of the rules `P`. -/
def ComesTo (f : List Task → Config) (P : Outcome Status → List Task → Machine → Prop) : Prop :=
  ∃ signal ts m', P signal ts m' ∧ ∀ k, f k = ⟨signal, ts ++ k, m'⟩

section Statements

variable {names} {P Q : Outcome Status → List Task → Machine → Prop} {f : List Task → Config}

theorem ComesTo.mono (h : ComesTo f P) (hPQ : ∀ signal ts m', P signal ts m' → Q signal ts m') :
    ComesTo f Q := by
  obtain ⟨signal, ts, m', hP, hf⟩ := h
  exact ⟨signal, ts, m', hPQ _ _ _ hP, hf⟩

/-- What is over, or leaves tasks, by a rule. -/
theorem comesTo_of {signal : Outcome Status} (ts : List Task) {m' : Machine} (h : P signal ts m') :
    ComesTo (fun k => ⟨signal, ts ++ k, m'⟩) P :=
  ⟨signal, ts, m', h, fun _ => rfl⟩

variable (names)

/-- **Evaluating and storing** is by one of its rules. -/
theorem Machine.comesTo_evalStore (m : Machine) (x : Name) (e : Expr) :
    ComesTo (fun k => evalStore names x e k m)
      fun signal ts m' => ts = [] ∧ m.Stores names x e signal m' := by
  unfold evalStore
  -- What is evaluated and what is stored may each stop it, and each has its rule.
  cases heval : m.eval names e with
  | mk r m₁ =>
    cases r with
    | error s => exact comesTo_of [] ⟨rfl, .unevaluated heval⟩
    | ok v =>
      dsimp only
      cases hstore : m₁.store names x v with
      | mk r m₂ =>
        cases r with
        | error s => exact comesTo_of [] ⟨rfl, .unstored heval hstore⟩
        | ok => exact comesTo_of [] ⟨rfl, .stored heval hstore⟩

/-- **The arms of an `if`** are begun by one of theirs. -/
theorem Arms.comesTo_start : ∀ (arms : Arms) (m : Machine),
    ComesTo (fun k => arms.start names k m) (arms.Leaves names m)
  | .done, _ => comesTo_of [] .done
  | .otherwise _, _ => comesTo_of [_, _] .otherwise
  | .arm cond body rest, m => by
    simp only [Arms.start]
    cases htest : m.test names .ifCondition cond with
    | mk r m₁ =>
      obtain s | (_ | _) := r
      · exact comesTo_of [] (.untested htest)
      -- The condition fails, and the other arms say what comes of it.
      · exact (rest.comesTo_start m₁).mono fun _ _ _ => .fails htest
      · exact comesTo_of [_, _] (.holds htest)

/-- **A call** is by one of its rules, whatever the table holds. -/
theorem Machine.comesTo_invoke (name : String) (m : Machine) :
    ∀ sub : Option Subroutine, ComesTo (fun k => invoke name k m sub) (m.Invokes name sub)
  | none => comesTo_of [] .undefined
  | some sub => by
    -- The limit comes first. Below it, the frame may still be refused.
    unfold invoke
    by_cases hcalls : m.maxCalls ≤ m.calls
    · simp only [if_pos hcalls]
      exact comesTo_of [] (.limited hcalls)
    · simp only [if_neg hcalls]
      cases hscope : m.enterScopeIn sub.scope with
      | mk r m₁ =>
        cases r with
        | error s => exact comesTo_of [] (.unscoped (Nat.lt_of_not_le hcalls) hscope)
        | ok => exact comesTo_of [_, _, _] (.entered (Nat.lt_of_not_le hcalls) hscope)

/-- **Every statement begins by a rule.** -/
theorem Stmt.comesTo_start (s : Stmt) (m : Machine) :
    ComesTo (fun k => s.start names k m) (s.Leaves names m) := by
  -- Each case follows the operations of the statement in their order, and where one of them stops it,
  -- there is a rule for that.
  cases s with
  | assign x e =>
    simp only [Stmt.start, Machine.assign]
    -- The variable is asked for first, and only a declared one is stored to.
    cases hx : m.env.isDeclared x with
    | error f => exact comesTo_of [] (.assignUnfound hx)
    | ok declared =>
      cases declared with
      | false => exact comesTo_of [] (.assignUndeclared hx)
      | true =>
        -- Storing leaves no tasks, and so the rule for an assignment has none either.
        refine (m.comesTo_evalStore names x e).mono ?_
        rintro signal _ m' ⟨rfl, hstores⟩
        exact .assign hx hstores
  | declare x e =>
    simp only [Stmt.start, Machine.declareStore]
    cases hx : m.declare names x with
    | mk r m₁ =>
      cases r with
      | error s => exact comesTo_of [] (.undeclared hx)
      | ok =>
        refine (m₁.comesTo_evalStore names x e).mono ?_
        rintro signal _ m' ⟨rfl, hstores⟩
        exact .declare hx hstores
  | print e =>
    simp only [Stmt.start, Machine.printValue]
    cases heval : m.eval names e with
    | mk r m₁ =>
      cases r with
      | error s => exact comesTo_of [] (.unevaluated heval)
      | ok v =>
        dsimp only
        cases hline : v.printed m₁.heap with
        | error s => exact comesTo_of [] (.unprinted heval hline)
        | ok line => exact comesTo_of [] (.print heval hline)
  | ifElse arms => exact (arms.comesTo_start names m).mono fun _ _ _ => .ifElse
  | whileDo cond body => exact comesTo_of [_] .whileDo
  | repeatTimes count body =>
    simp only [Stmt.start, Machine.beginRepeat]
    cases heval : m.eval names count with
    | mk r m₁ =>
      cases r with
      | error s => exact comesTo_of [] (.uncounted heval)
      | ok v =>
        dsimp only
        cases hn : v.toInt .repeatCount with
        | error s => exact comesTo_of [] (.countless heval hn)
        | ok n => exact comesTo_of [_] (.repeatTimes heval hn)
  | sub x body =>
    -- The name must have a text, and the table must not hold it already.
    simp only [Stmt.start, Machine.define]
    cases hx : names.resolve x with
    | error s => exact comesTo_of [] (.subUnnamed hx)
    | ok name =>
      dsimp only
      by_cases hsub : (m.subs.lookup x).isSome = true
      · simp only [if_pos hsub]
        exact comesTo_of [] (.subDefined hx hsub)
      · simp only [if_neg hsub]
        exact comesTo_of [] (.sub hx (Option.not_isSome_iff_eq_none.mp hsub))
  | call x =>
    simp only [Stmt.start, Machine.call]
    cases hx : names.resolve x with
    | error s => exact comesTo_of [] (.callUnnamed hx)
    | ok name => exact (Machine.comesTo_invoke name _ _).mono fun _ _ _ => .call hx
  | exit => exact comesTo_of [] .exit
  | breakLoop => exact comesTo_of [] .breakLoop

end Statements

/-- **Every step is by a rule**, and the tasks before which it is taken do not matter. -/
theorem Task.comesTo_step (task : Task) (signal : Outcome Status) (m : Machine) :
    ComesTo (fun k => task.step names signal k m) (task.Leaves names m signal) := by
  cases task with
  | run rest =>
    -- Statements are begun after the normal signal alone, and dropped after all others.
    obtain s | (_ | _ | _) := signal
    case ok.ok =>
      cases rest with
      | nil => exact comesTo_of [] .ended
      | cons s rest =>
        -- The rules know nothing of the rest of the block, so it is put before the tasks that are left.
        obtain ⟨signal', ts, m', hleaves, hstart⟩ := s.comesTo_start names m
        refine ⟨signal', ts ++ [.run rest], m', .start hleaves, fun k => ?_⟩
        rw [List.append_assoc, List.singleton_append]
        exact hstart _
    all_goals exact comesTo_of [] (.dropped (by simp))
  | leaveScope => exact comesTo_of [] .leaveScope
  | leaveCall => exact comesTo_of [] .leaveCall
  | whileDo cond body =>
    -- A loop heeds three signals: the normal one, a break, and all others.
    obtain s | (_ | _ | _) := signal
    case ok.ok =>
      simp only [Task.step]
      cases htest : m.test names .whileCondition cond with
      | mk r m₁ =>
        obtain s | (_ | _) := r
        · exact comesTo_of [] (.whileUntested htest)
        · exact comesTo_of [] (.whileOver htest)
        · exact comesTo_of [_, _, _] (.whileAgain htest)
    case ok.break => exact comesTo_of [] .whileBreak
    all_goals exact comesTo_of [] (.whileLeft (by simp) (by simp))
  -- So does a `repeat`, which has times left or has not.
  | repeatTimes left body =>
    obtain s | (_ | _ | _) := signal
    case ok.ok =>
      cases left with
      | zero => exact comesTo_of [] .repeatOver
      | succ left => exact comesTo_of [_, _, _] .repeatAgain
    case ok.break => exact comesTo_of [] .repeatBreak
    all_goals exact comesTo_of [] (.repeatLeft (by simp) (by simp))

/-! ### Runs -/

section Runs

variable {names} in
/-- No task heeds an error. -/
theorem Task.Leaves.of_error {task : Task} {s : Stop} {signal : Outcome Status} {ts : List Task}
    {m m' : Machine} (h : task.Leaves names m (.error s) signal ts m') : signal = .error s := by
  cases h with
  | _ => rfl

/-- **What every rule preserves holds at every point of a run.** -/
theorem Config.run_preserves {P : Outcome Status → List Task → Machine → Prop}
    (hP : ∀ task k signal m signal' ts m', P signal (task :: k) m →
      task.Leaves names m signal signal' ts m' → P signal' (ts ++ k) m')
    (fuel : Nat) {c : Config} (hc : P c.signal c.control c.machine) :
    P (c.run names fuel).signal (c.run names fuel).control (c.run names fuel).machine := by
  let Q (c : Config) : Prop := P c.signal c.control c.machine
  -- Each step is by some rule, and so it preserves what all rules preserve.
  have hstep (signal : Outcome Status) (task : Task) (k : List Task) (m : Machine)
      (hm : Q ⟨signal, task :: k, m⟩) : Q (task.step names signal k m) := by
    obtain ⟨signal', ts, m', hleaves, hstep⟩ := task.comesTo_step names signal m
    have hstep' : task.step names signal k m = ⟨signal', ts ++ k, m'⟩ := hstep k
    rw [hstep']
    exact hP task k signal m signal' ts m' hm hleaves
  obtain ⟨c', hrun, hc'⟩ | ⟨result, m, hrun, hm⟩ := Config.run_invariant names hstep fuel hc
  · rw [hrun]
    exact hc'
  · rw [hrun]
    exact hm

/-- A run that was stopped stays so. -/
theorem Config.signal_run_error (s : Stop) (fuel : Nat) (k : List Task) (m : Machine) :
    (Config.run names fuel ⟨.error s, k, m⟩).signal = .error s := by
  let Q (signal : Outcome Status) (_ : List Task) (_ : Machine) : Prop := signal = .error s
  have hstep (task : Task) (k : List Task) (signal : Outcome Status) (m : Machine)
      (signal' : Outcome Status) (ts : List Task) (m' : Machine) (hsignal : Q signal (task :: k) m)
      (hleaves : task.Leaves names m signal signal' ts m') : Q signal' (ts ++ k) m' := by
    obtain rfl : signal = .error s := hsignal
    exact hleaves.of_error
  exact Config.run_preserves names (P := Q) hstep fuel (c := ⟨.error s, k, m⟩) rfl

/-- **What stops a run** stopped the step at some point of it. -/
theorem Config.exists_of_run_error {s : Stop} {fuel : Nat} {c : Config} {status : Status}
    (hc : c.signal = .ok status) (hrun : (c.run names fuel).signal = .error s) :
    ∃ n < fuel, ∃ status task k m ts m', c.run names n = .running ⟨.ok status, task :: k, m⟩ ∧
      task.Leaves names m (.ok status) (.error s) ts m' ∧
      task.step names (.ok status) k m = ⟨.error s, ts ++ k, m'⟩ := by
  -- The induction follows the run up to the step that stops it.
  induction fuel generalizing c status with
  | zero =>
    obtain ⟨signal, control, m⟩ := c
    cases control with
    | nil => cases hc.symm.trans hrun
    | cons task k => cases hc.symm.trans hrun
  | succ fuel ih =>
    obtain ⟨signal, control, m⟩ := c
    obtain rfl : signal = .ok status := hc
    cases control with
    | nil => cases hrun
    | cons task k =>
      obtain ⟨signal', ts, m', hleaves, hstep⟩ := task.comesTo_step names (.ok status) m
      have hstep' : task.step names (.ok status) k m = ⟨signal', ts ++ k, m'⟩ := hstep k
      rw [Config.run_succ_cons, hstep'] at hrun
      cases signal' with
      -- This is the step, and from here on the run stays stopped.
      | error s' =>
        rw [Config.signal_run_error] at hrun
        cases hrun
        exact ⟨0, Nat.succ_pos _, status, task, k, m, ts, m', rfl, hleaves, hstep'⟩
      | ok status' =>
        -- It is a later step, which stands one step further on in the whole run.
        obtain ⟨n, hn, status₁, task₁, k₁, m₁, ts₁, m₁', hpoint, hlast⟩ := ih rfl hrun
        refine ⟨n + 1, Nat.succ_lt_succ hn, status₁, task₁, k₁, m₁, ts₁, m₁', ?_, hlast⟩
        rw [Config.run_succ_cons, hstep']
        exact hpoint

end Runs

end Silly
