import Silly.Machine.Run
import Silly.Proofs.Environment.Frames

/-!
# Frames and calls are opened and closed alike

What a task opens, the tasks that it leaves to be done close. So at each point of a run the frames
and calls that are open are those there were at first and those that the tasks still close
(`Balanced`), and when nothing is left to do there are as many as at first. No signal matters here,
since a scope and a call end whatever the signal.

While a scope is still to be closed, the innermost frame is not one of those there were at first. If
each block of which statements are left to run stands above the end of a scope (`Housed`), none of
its declarations is in a frame that was there before (`Within`).
-/

namespace Silly

variable {σ H : Type}

/-! ### What tasks close -/

/-- How many scopes the tasks close. -/
def scopes : List Task → Nat
  | [] => 0
  | .leaveScope :: k => scopes k + 1
  | _ :: k => scopes k

/-- How many calls the tasks end. -/
def activeCalls : List Task → Nat
  | [] => 0
  | .leaveCall :: k => activeCalls k + 1
  | _ :: k => activeCalls k

/-- **Every block of which statements are left to run** has a scope of its own, which is still to be
closed. -/
def Housed : List Task → Prop
  | [] => True
  | .run (_ :: _) :: k => 0 < scopes k ∧ Housed k
  | _ :: k => Housed k

/-- The scopes that two rows of tasks close. -/
theorem scopes_append (ts k : List Task) : scopes (ts ++ k) = scopes ts + scopes k := by
  induction ts with
  | nil => exact (Nat.zero_add _).symm
  | cons task ts ih =>
    cases task <;> simp only [List.cons_append, scopes, ih]
    omega

/-- The calls that two rows of tasks end. -/
theorem activeCalls_append (ts k : List Task) :
    activeCalls (ts ++ k) = activeCalls ts + activeCalls k := by
  induction ts with
  | nil => exact (Nat.zero_add _).symm
  | cons task ts ih =>
    cases task <;> simp only [List.cons_append, activeCalls, ih]
    omega

/-- The tasks after the first one have their scopes as well. -/
theorem Housed.tail {task : Task} {k : List Task} (h : Housed (task :: k)) : Housed k := by
  cases task with
  | run rest =>
    cases rest with
    | nil => exact h
    | cons s rest => exact h.2
  | _ => exact h

theorem housed_run {k : List Task} (rest : List Stmt) (hscopes : 0 < scopes k) (h : Housed k) :
    Housed (.run rest :: k) := by
  cases rest with
  | nil => exact h
  | cons s rest => exact ⟨hscopes, h⟩

/-! ### What a statement opens -/

/-- **What a machine comes to, and the tasks that this leaves**: they close the frames and calls that
were opened. The innermost frame before gains names among `new`. -/
structure Machine.Enters (new : List Name) (m : Machine σ H) (ts : List Task)
    (m' : Machine σ H) : Prop where
  env : m.env.Opens new (scopes ts) m'.env
  calls : m'.calls = m.calls + activeCalls ts
  housed : ∀ k, Housed k → Housed (ts ++ k)

namespace Machine

variable {m m' m'' : Machine σ H} {new : List Name} {ts : List Task} (names : Interner)

/-- What changes neither frames nor calls. -/
theorem Enters.of_eq (new : List Name) (henv : m'.env = m.env) (hcalls : m'.calls = m.calls) :
    m.Enters new [] m' where
  env := henv ▸ .refl new m.env
  calls := hcalls
  housed _ := id

/-- What opens nothing may come before. -/
theorem Enters.trans (h : m.Enters new [] m') (h' : m'.Enters [] ts m'') :
    m.Enters new ts m'' where
  env := by
    have hopens := h.env.trans h'.env
    rwa [scopes, Nat.zero_add] at hopens
  calls := h'.calls.trans (congrArg (· + activeCalls ts) h.calls)
  housed := h'.housed

theorem enters_note (m : Machine σ H) (e : Event) : m.Enters [] [] (m.note e) := .of_eq [] rfl rfl

theorem enters_print (m : Machine σ H) (s : String) : m.Enters [] [] (m.print s) :=
  .of_eq [] rfl rfl

theorem enters_addSub (m : Machine σ H) (x : Name) (sub : Subroutine) :
    m.Enters [] [] (m.addSub x sub) := .of_eq [] rfl rfl

theorem enters_store (m : Machine σ H) (x : Name) (v : Value σ) :
    m.Enters [] [] (m.store names x v).2 where
  env := m.env.opens_store x v
  calls := rfl
  housed _ := id

/-- **A declaration** opens nothing, and adds its name to the innermost frame. -/
theorem enters_declare (m : Machine σ H) (x : Name) : m.Enters [x] [] (m.declare names x).2 where
  env := m.env.opens_declare x
  calls := rfl
  housed _ := id

/-- **A block begins**, and leaves its statements and the end of its scope. -/
theorem enters_enterScope (m : Machine σ H) (body : Block) :
    m.Enters [] [.run body, .leaveScope] m.enterScope where
  env := m.env.opens_opened m.env.current
  calls := rfl
  housed _ hk := housed_run body (Nat.succ_pos _) hk

/-- **A call begins**, unless the frame that the subroutine belongs to has ended. -/
theorem enters_call {parent : FrameId} (h : m.enterScopeIn parent = (.ok (), m')) (body : Block) :
    m.Enters [] [.run body, .leaveScope, .leaveCall] m'.beginCall := by
  obtain ⟨heap, env, subs, printer, calls, maxCalls, log⟩ := m
  rw [enterScopeIn, Environment.beginScopeIn_eq] at h
  by_cases hparent : env.live.contains parent = true
  · rw [if_pos hparent] at h
    cases h
    -- The two ends that are left are those of the frame and of the call.
    exact ⟨env.opens_opened parent, rfl, fun k hk => housed_run body (Nat.succ_pos _) hk⟩
  · rw [if_neg hparent] at h
    cases h

/-- A frame that is refused leaves the machine as it was. -/
theorem enters_of_enterScopeIn_error {parent : FrameId} {s : Stop}
    (h : m.enterScopeIn parent = (.error s, m')) : m.Enters [] [] m' := by
  -- The frame is live, or the call is refused.
  obtain ⟨heap, env, subs, printer, calls, maxCalls, log⟩ := m
  rw [enterScopeIn, Environment.beginScopeIn_eq] at h
  by_cases hparent : env.live.contains parent = true
  · rw [if_pos hparent] at h
    cases h
  · rw [if_neg hparent] at h
    cases h
    exact .of_eq [] rfl rfl

variable [StringStore σ H]

theorem enters_eval (m : Machine σ H) (e : Expr) : m.Enters [] [] (m.eval names e).2 :=
  .of_eq [] rfl rfl

theorem enters_test (m : Machine σ H) (operation : Operation) (e : Expr) :
    m.Enters [] [] (m.test names operation e).2 := m.enters_eval names e

end Machine

/-- **What begins before any tasks** leaves the same tasks before them, and they close what it has
opened. -/
def Machine.Begins (new : List Name) (m : Machine σ H) (f : List Task → Config σ H) : Prop :=
  ∃ signal ts m', (∀ k, f k = ⟨signal, ts ++ k, m'⟩) ∧ m.Enters new ts m'

namespace Machine

variable {m m' : Machine σ H} {new : List Name} {f : List Task → Config σ H} (names : Interner)

/-- What is over at once leaves no tasks. -/
theorem Enters.begins {ts : List Task} (h : m.Enters new ts m') (signal : Outcome Status) :
    m.Begins new fun k => ⟨signal, ts ++ k, m'⟩ :=
  ⟨signal, ts, m', fun _ => rfl, h⟩

theorem Begins.after (hf : m'.Begins [] f) (h : m.Enters new [] m') : m.Begins new f := by
  obtain ⟨signal, ts, m'', hk, henters⟩ := hf
  exact ⟨signal, ts, m'', hk, h.trans henters⟩

/-- A task that is put before the others comes after what is left. -/
theorem Begins.before (hf : m.Begins new f) {task : Task}
    (htask : ∀ k, Housed k → Housed (task :: k)) (hscopes : scopes [task] = 0)
    (hcalls : activeCalls [task] = 0) : m.Begins new fun k => f (task :: k) := by
  obtain ⟨signal, ts, m', hk, henters⟩ := hf
  refine ⟨signal, ts ++ [task], m', fun k => ?_, ?_⟩
  · dsimp only
    rw [hk, List.append_assoc, List.singleton_append]
  · refine ⟨?_, ?_, fun k hhoused => ?_⟩
    -- The task closes nothing, so it does not count.
    · rw [scopes_append, hscopes]
      exact henters.env
    · rw [activeCalls_append, hcalls]
      exact henters.calls
    · rw [List.append_assoc]
      exact henters.housed _ (htask k hhoused)

/-- **A block that is entered** leaves its end. -/
theorem begins_enterBlock (m : Machine σ H) (body : Block) :
    m.Begins [] fun k => enterBlock body k m :=
  (m.enters_enterScope body).begins _

variable [StringStore σ H]

/-- **Evaluating and storing** leave no tasks. -/
theorem begins_evalStore (m : Machine σ H) (x : Name) (e : Expr) :
    m.Begins [] fun k => evalStore names x e k m := by
  have heval := m.enters_eval names e
  unfold evalStore
  revert heval
  obtain ⟨v, m'⟩ := m.eval names e
  intro heval
  -- However it ends, evaluating and storing open nothing and leave no tasks.
  cases v with
  | error s => exact heval.begins _
  | ok v =>
    have hstore := heval.trans (m'.enters_store names x v)
    dsimp only
    revert hstore
    obtain ⟨r, m''⟩ := m'.store names x v
    intro hstore
    cases r with
    | error s => exact hstore.begins _
    | ok => exact hstore.begins _

/-- **An assignment** leaves no tasks. -/
theorem begins_assign (m : Machine σ H) (x : Name) (e : Expr) :
    m.Begins [] fun k => assign names x e k m := by
  unfold assign
  -- The variable is looked for, which changes nothing, and then the value is stored.
  cases m.env.isDeclared x with
  | error f => exact (Enters.of_eq [] rfl rfl).begins _
  | ok declared =>
    cases declared with
    | false => exact (Enters.of_eq [] rfl rfl).begins _
    | true => exact m.begins_evalStore names x e

/-- **A declaration** is what adds a name to the innermost frame. -/
theorem begins_declareStore (m : Machine σ H) (x : Name) (e : Expr) :
    m.Begins [x] fun k => declareStore names x e k m := by
  -- The name is added before the evaluation, whatever comes of this.
  have hdeclare := m.enters_declare names x
  unfold declareStore
  revert hdeclare
  obtain ⟨r, m'⟩ := m.declare names x
  intro hdeclare
  cases r with
  | error s => exact hdeclare.begins _
  | ok => exact (m'.begins_evalStore names x e).after hdeclare

/-- **A `print`** leaves no tasks. -/
theorem begins_printValue (m : Machine σ H) (e : Expr) :
    m.Begins [] fun k => printValue names e k m := by
  have heval := m.enters_eval names e
  unfold printValue
  revert heval
  obtain ⟨v, m'⟩ := m.eval names e
  intro heval
  cases v with
  | error s => exact heval.begins _
  | ok v =>
    dsimp only
    cases v.printed m'.heap with
    | error s => exact heval.begins _
    | ok line => exact (heval.trans (m'.enters_print line)).begins _

/-- **A `repeat`** leaves its loop, which closes nothing by itself. -/
theorem begins_beginRepeat (m : Machine σ H) (count : Expr) (body : Block) :
    m.Begins [] fun k => beginRepeat names count body k m := by
  have heval := m.enters_eval names count
  unfold beginRepeat
  revert heval
  obtain ⟨v, m'⟩ := m.eval names count
  intro heval
  cases v with
  | error s => exact heval.begins _
  | ok v =>
    dsimp only
    cases v.toInt .repeatCount with
    | error s => exact heval.begins _
    | ok n =>
      -- The count is noted, and the loop is put before the other tasks.
      have hnote := heval.trans (m'.enters_note (.repeatTimes n))
      exact (hnote.begins (.ok .ok)).before (fun _ => id) rfl rfl

omit [StringStore σ H] in
/-- **A definition** leaves no tasks. -/
theorem begins_define (m : Machine σ H) (x : Name) (body : Block) :
    m.Begins [] fun k => define names x body k m := by
  unfold define
  cases names.resolve x with
  | error s => exact (Enters.of_eq [] rfl rfl).begins _
  | ok name =>
    dsimp only
    by_cases hsub : (m.subs.lookup x).isSome = true
    · simp only [if_pos hsub]
      exact (Enters.of_eq [] rfl rfl).begins _
    · simp only [if_neg hsub]
      exact ((m.enters_note _).trans (enters_addSub _ x _)).begins _

omit [StringStore σ H] in
/-- **A call of a subroutine** leaves its end with that of its scope, or is refused. -/
theorem begins_invoke (m : Machine σ H) (name : String) :
    ∀ sub : Option Subroutine, m.Begins [] fun k => invoke name k m sub
  | none => (m.enters_note .exitCall).begins _
  | some sub => by
    unfold invoke
    by_cases hdepth : m.maxCalls ≤ m.calls
    · simp only [if_pos hdepth]
      exact (m.enters_note .exitCall).begins _
    · simp only [if_neg hdepth]
      -- The parent's frame may have ended, and then the call leaves nothing to be closed.
      cases hscope : m.enterScopeIn sub.scope with
      | mk r m' =>
        cases r with
        | error s =>
          exact ((enters_of_enterScopeIn_error hscope).trans (m'.enters_note .exitCall)).begins _
        | ok => exact (enters_call hscope sub.body).begins _

omit [StringStore σ H] in
/-- **A call** notes two lines before it begins. -/
theorem begins_call (m : Machine σ H) (x : Name) : m.Begins [] fun k => call names x k m := by
  unfold call
  cases names.resolve x with
  | error s => exact (Enters.of_eq [] rfl rfl).begins _
  | ok name =>
    have hnoted := (m.enters_note (.callSubroutine name)).trans (enters_note _ .enterCall)
    exact (begins_invoke _ name (m.subs.lookup x)).after hnoted

end Machine

/-! ### Steps -/

variable [StringStore σ H] (names : Interner)

/-- **The arms of an `if`** leave the end of a scope if they enter a body. -/
theorem Arms.begins : ∀ (arms : Arms) (m : Machine σ H), m.Begins [] fun k => arms.start names k m
  | .done, _ => (Machine.Enters.of_eq [] rfl rfl).begins _
  | .otherwise body, m => m.begins_enterBlock body
  | .arm cond body rest, m => by
    have htest := m.enters_test names .ifCondition cond
    simp only [Arms.start]
    revert htest
    obtain ⟨r, m'⟩ := m.test names .ifCondition cond
    intro htest
    -- The test opens nothing, so what comes after it is what counts.
    cases r with
    | error s => exact htest.begins _
    | ok holds =>
      cases holds with
      | true => exact (m'.begins_enterBlock body).after htest
      | false => exact (rest.begins m').after htest

/-- The names that a statement declares in the innermost frame. The statements inside of it have
frames of their own. -/
def Stmt.declares : Stmt → List Name
  | .declare x _ => [x]
  | _ => []

/-- **A statement** leaves tasks that close what it has opened, and only a declaration adds a name to
the innermost frame. -/
theorem Stmt.begins (s : Stmt) (m : Machine σ H) :
    m.Begins s.declares fun k => s.start names k m := by
  -- Each statement opens only what its tasks close, as was shown of each above.
  cases s with
  | assign x e => exact m.begins_assign names x e
  | declare x e => exact m.begins_declareStore names x e
  | print e => exact m.begins_printValue names e
  | ifElse arms => exact arms.begins names m
  | whileDo cond body =>
    have hstay : m.Enters [] [] m := .of_eq [] rfl rfl
    exact (hstay.begins (.ok .ok)).before (fun _ => id) rfl rfl
  | repeatTimes count body => exact m.begins_beginRepeat names count body
  | sub x body => exact m.begins_define names x body
  | call x => exact m.begins_call names x
  | exit => exact (Machine.Enters.of_eq [] rfl rfl).begins _
  | breakLoop => exact (Machine.Enters.of_eq [] rfl rfl).begins _

/-- A loop begins its body again, or is over. -/
theorem begins_whileDo (cond : Expr) (body : Block) (signal : Outcome Status) (m : Machine σ H) :
    m.Begins [] fun k => (Task.whileDo cond body).step names signal k m := by
  have hstay : m.Enters [] [] m := .of_eq [] rfl rfl
  obtain s | (_ | _ | _) := signal
  case ok.ok =>
    have htest := m.enters_test names .whileCondition cond
    simp only [Task.step]
    revert htest
    obtain ⟨r, m'⟩ := m.test names .whileCondition cond
    intro htest
    cases r with
    | error s => exact htest.begins _
    | ok holds =>
      cases holds with
      | true =>
        have hbody := (m'.begins_enterBlock body).after htest
        exact hbody.before (fun _ => id) rfl rfl
      | false => exact htest.begins _
  all_goals exact hstay.begins _

/-- **A `repeat`** begins its body again, or is over. -/
theorem begins_repeatTimes (left : Nat) (body : Block) (signal : Outcome Status)
    (m : Machine σ H) :
    m.Begins [] fun k => (Task.repeatTimes left body).step names signal k m := by
  have hstay : m.Enters [] [] m := .of_eq [] rfl rfl
  obtain s | (_ | _ | _) := signal
  case ok.ok =>
    -- One time fewer is left, and the loop stands after the end of the scope.
    cases left with
    | zero => exact hstay.begins _
    | succ left => exact (m.begins_enterBlock body).before (fun _ => id) rfl rfl
  all_goals exact hstay.begins _

/-- **A step does the same before any tasks**: it leaves them as they are, and puts others before
them. -/
theorem Task.step_append (task : Task) (signal : Outcome Status) (m : Machine σ H) :
    ∃ signal' ts m', ∀ k, task.step names signal k m = ⟨signal', ts ++ k, m'⟩ := by
  cases task with
  | run rest =>
    obtain s | (_ | _ | _) := signal
    case ok.ok =>
      cases rest with
      | nil => exact ⟨_, [], m, fun _ => rfl⟩
      | cons s rest =>
        -- The rest of the block is put before the tasks, and what the statement leaves before it.
        obtain ⟨signal', ts, m', hk, -⟩ := s.begins names m
        refine ⟨signal', ts ++ [.run rest], m', fun k => ?_⟩
        rw [List.append_assoc, List.singleton_append]
        exact hk _
    all_goals exact ⟨_, [], m, fun _ => rfl⟩
  | leaveScope => exact ⟨_, [], _, fun _ => rfl⟩
  | leaveCall => exact ⟨_, [], _, fun _ => rfl⟩
  | whileDo cond body =>
    obtain ⟨signal', ts, m', hk, -⟩ := begins_whileDo names cond body signal m
    exact ⟨signal', ts, m', hk⟩
  | repeatTimes left body =>
    obtain ⟨signal', ts, m', hk, -⟩ := begins_repeatTimes names left body signal m
    exact ⟨signal', ts, m', hk⟩

/-- **What every step preserves holds wherever a run has come to**: at the point at which it still goes
on, or at the one at which it was over. -/
theorem Config.run_invariant {P : Config σ H → Prop}
    (hP : ∀ signal task k m, P ⟨signal, task :: k, m⟩ → P (task.step names signal k m))
    (fuel : Nat) {c : Config σ H} (hc : P c) :
    (∃ c', c.run names fuel = .running c' ∧ P c') ∨
      ∃ result m, c.run names fuel = .finished result m ∧ P ⟨result, [], m⟩ := by
  -- On the fuel, for all points at once, since each step leads to another one.
  induction fuel generalizing c with
  | zero =>
    obtain ⟨signal, control, m⟩ := c
    cases control with
    | nil => exact .inr ⟨signal, m, Config.run_nil .., hc⟩
    | cons task k => exact .inl ⟨_, Config.run_zero_cons .., hc⟩
  | succ fuel ih =>
    obtain ⟨signal, control, m⟩ := c
    cases control with
    | nil => exact .inr ⟨signal, m, Config.run_nil .., hc⟩
    | cons task k =>
      rw [Config.run_succ_cons]
      exact ih (hP signal task k m hc)

/-! ### As many frames and calls as the tasks close -/

/-- **A point that was reached from `base`**, when the tasks `k` are left: the frames and calls on top
of those of `base` are as many as the tasks close. -/
structure Balanced (base m : Machine σ H) (k : List Task) : Prop where
  tidy : m.env.Tidy
  size : m.env.frames.size = base.env.frames.size + scopes k
  calls : m.calls = base.calls + activeCalls k

section Balanced

variable {new : List Name} {base m m' : Machine σ H} {k ts : List Task}

omit [StringStore σ H] in
/-- **What is opened is closed** by the tasks that are put before the others. -/
theorem Balanced.enter (h : Balanced base m k) (henters : m.Enters new ts m') :
    Balanced base m' (ts ++ k) where
  tidy := henters.env.tidy h.tidy
  size := by
    rw [henters.env.size, h.size, scopes_append]
    omega
  calls := by
    rw [henters.calls, h.calls, activeCalls_append]
    omega

omit [StringStore σ H] in
theorem Balanced.begin {f : List Task → Config σ H} (h : Balanced base m k)
    (hf : m.Begins new f) : Balanced base (f k).machine (f k).control := by
  obtain ⟨signal, ts, m', hk, henters⟩ := hf
  rw [hk]
  exact h.enter henters

omit [StringStore σ H] in
/-- **Where a scope is still to be closed**, the innermost frame is not one of those there were at
first. -/
theorem Balanced.size_le_current (h : Balanced base m k) (hscopes : 0 < scopes k) :
    base.env.frames.size ≤ m.env.current := by
  rw [h.tidy.current_eq, h.size]
  omega

omit [StringStore σ H] in
/-- **The end of a scope.** -/
theorem Balanced.leaveScope (hpos : 0 < base.env.frames.size)
    (h : Balanced base m (.leaveScope :: k)) : Balanced base m.leaveScope k := by
  have hsize : m.env.frames.size = base.env.frames.size + (scopes k + 1) := h.size
  refine ⟨h.tidy.endScope, ?_, h.calls⟩
  -- A frame of `base` and the one that ends are two, so the global frame is not the one.
  have hends := h.tidy.size_endScope (by omega)
  have hleave : m.leaveScope.env = m.env.endScope := rfl
  rw [hleave, hends, hsize]
  omega

omit [StringStore σ H] in
/-- **The end of a call.** -/
theorem Balanced.leaveCall (h : Balanced base m (.leaveCall :: k)) :
    Balanced base m.leaveCall k := by
  have hcalls : m.calls = base.calls + (activeCalls k + 1) := h.calls
  refine ⟨h.tidy, h.size, ?_⟩
  have hleave : m.leaveCall.calls = m.calls - 1 := rfl
  rw [hleave, hcalls]
  omega

/-- **A step** keeps the balance, whatever the signal. -/
theorem Task.balanced_step (hpos : 0 < base.env.frames.size) {task : Task}
    (h : Balanced base m (task :: k)) (signal : Outcome Status) :
    Balanced base (task.step names signal k m).machine (task.step names signal k m).control := by
  cases task with
  | run rest =>
    -- A task that is dropped closes nothing.
    have hdropped : Balanced base m k := ⟨h.tidy, h.size, h.calls⟩
    obtain s | (_ | _ | _) := signal
    case ok.ok =>
      cases rest with
      | nil => exact hdropped
      | cons s rest =>
        have hrest : Balanced base m (.run rest :: k) := ⟨h.tidy, h.size, h.calls⟩
        exact hrest.begin (s.begins names m)
    all_goals exact hdropped
  | leaveScope => exact h.leaveScope hpos
  | leaveCall => exact h.leaveCall
  | whileDo cond body =>
    have hdropped : Balanced base m k := ⟨h.tidy, h.size, h.calls⟩
    exact hdropped.begin (begins_whileDo names cond body signal m)
  | repeatTimes left body =>
    have hdropped : Balanced base m k := ⟨h.tidy, h.size, h.calls⟩
    exact hdropped.begin (begins_repeatTimes names left body signal m)

/-- **At every point of a run** the frames and calls that are open are those there were at first and
those that the tasks close. -/
theorem Config.balanced_run (hpos : 0 < base.env.frames.size) (fuel : Nat) {c : Config σ H}
    (hc : Balanced base c.machine c.control) :
    Balanced base (c.run names fuel).machine (c.run names fuel).control := by
  -- The balance goes along the run, and is looked at where the run has come to.
  have hstep (signal : Outcome Status) (task : Task) (k : List Task) (m : Machine σ H)
      (hm : Balanced base m (task :: k)) := Task.balanced_step names hpos hm signal
  obtain ⟨c', hrun, hc'⟩ | ⟨result, m, hrun, hm⟩ :=
    Config.run_invariant names (P := fun c => Balanced base c.machine c.control) hstep fuel hc
  · rw [hrun]
    exact hc'
  · rw [hrun]
    exact hm

end Balanced

/-! ### What becomes of the frames there were -/

/-- **A point that was reached from `base`** by what is on top of its frames: of these the innermost
one has gained names among `new`, and gains no more. -/
structure Within (new : List Name) (base m : Machine σ H) (k : List Task) : Prop
    extends Balanced base m k where
  grows : base.env.Grows new m.env
  housed : Housed k

section Within

variable {new new' : List Name} {base m m' : Machine σ H} {k ts : List Task}

omit [StringStore σ H] in
theorem Within.enter (h : Within new base m k) (henters : m.Enters new' ts m')
    (hkeeps : m.env.Keeps base.env.frames.size m'.env) : Within new base m' (ts ++ k) where
  toBalanced := h.toBalanced.enter henters
  grows := h.grows.trans_keeps hkeeps
  housed := henters.housed k h.housed

omit [StringStore σ H] in
theorem Within.begin {f : List Task → Config σ H} (h : Within new base m k)
    (hf : m.Begins [] f) : Within new base (f k).machine (f k).control := by
  obtain ⟨signal, ts, m', hk, henters⟩ := hf
  rw [hk]
  exact h.enter henters (henters.env.grows.keeps_all _)

/-- **A step** opens, closes and changes frames on top of those there were. -/
theorem Task.within_step (hpos : 0 < base.env.frames.size) {task : Task}
    (h : Within new base m (task :: k)) (signal : Outcome Status) :
    Within new base (task.step names signal k m).machine (task.step names signal k m).control := by
  cases task with
  | run rest =>
    -- The rest of a block may be dropped, and the scope that it needs is still to be closed.
    have hdropped : Within new base m k :=
      ⟨⟨h.tidy, h.size, h.calls⟩, h.grows, h.housed.tail⟩
    obtain s | (_ | _ | _) := signal
    case ok.ok =>
      cases rest with
      | nil => exact hdropped
      | cons s rest =>
        -- What the statement declares is in a frame that was opened since.
        have hcurrent := hdropped.size_le_current h.housed.1
        have hrest : Within new base m (.run rest :: k) :=
          ⟨⟨h.tidy, h.size, h.calls⟩, h.grows, housed_run rest h.housed.1 h.housed.2⟩
        obtain ⟨signal', ts, m', hk, henters⟩ := s.begins names m
        have hstart : (Task.run (s :: rest)).step names (.ok .ok) k m =
            ⟨signal', ts ++ .run rest :: k, m'⟩ := hk _
        rw [hstart]
        exact hrest.enter henters (henters.env.grows.keeps hcurrent)
    all_goals exact hdropped
  | leaveScope =>
    -- The frame that ends is on top of those of `base`.
    have hcurrent := h.size_le_current (Nat.succ_pos _)
    exact ⟨h.toBalanced.leaveScope hpos, h.grows.trans_keeps (m.env.keeps_endScope.mono hcurrent),
      h.housed⟩
  | leaveCall => exact ⟨h.toBalanced.leaveCall, h.grows, h.housed⟩
  | whileDo cond body =>
    have hdropped : Within new base m k :=
      ⟨⟨h.tidy, h.size, h.calls⟩, h.grows, h.housed⟩
    exact hdropped.begin (begins_whileDo names cond body signal m)
  | repeatTimes left body =>
    have hdropped : Within new base m k :=
      ⟨⟨h.tidy, h.size, h.calls⟩, h.grows, h.housed⟩
    exact hdropped.begin (begins_repeatTimes names left body signal m)

/-- **A run that ends** has closed all that it opened. -/
theorem Config.within_run (hpos : 0 < base.env.frames.size) (fuel : Nat) {c : Config σ H}
    (hc : Within new base c.machine c.control) {result : Outcome Status} {m' : Machine σ H}
    (hrun : c.run names fuel = .finished result m') : Within new base m' [] := by
  have hstep (signal : Outcome Status) (task : Task) (k : List Task) (m : Machine σ H)
      (hm : Within new base m (task :: k)) := Task.within_step names hpos hm signal
  -- Each step keeps the invariant, and a run ends only where no tasks are left.
  obtain ⟨c', hrunning, -⟩ | ⟨result', m₁, hfinished, hm₁⟩ :=
    Config.run_invariant names (P := fun c => Within new base c.machine c.control) hstep fuel hc
  · cases hrunning.symm.trans hrun
  · cases hfinished.symm.trans hrun
    exact hm₁

end Within

end Silly
