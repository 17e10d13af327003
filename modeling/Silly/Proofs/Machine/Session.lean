import Silly.Proofs.Machine.Balance

/-!
# What a statement leaves as it was

A machine may run one program after the other (`Machine.Session`), and a program may end in any
way. At every point of such a run, a statement that is executed there finishes with the frames that
there were, each with its parent and its names, and with as many calls (`Machine.Restores`). Only the
innermost frame may declare more than before, and only if the statement is a declaration. No variable
has lost its value.

A statement is executed on its own here (`Machine.execute`). Where it is the next one of a run, the
run does the same, step by step, and comes to the point after it (`Machine.execute_append`).
-/

namespace Silly

section Append

variable {σ H : Type} [StringStore σ H] (names : Interner) {m m' : Machine σ H}

/-! ### Tasks before others -/

/-- **Tasks are carried out alike before any others.** Either they are still not done when the fuel is
used up, or they are done after some steps, and then the others follow. -/
theorem Config.run_append (fuel : Nat) (signal : Outcome Status) (ts : List Task)
    (m : Machine σ H) :
    (∃ c, Config.run names fuel ⟨signal, ts, m⟩ = .running c ∧
        ∀ k, Config.run names fuel ⟨signal, ts ++ k, m⟩ =
          .running ⟨c.signal, c.control ++ k, c.machine⟩) ∨
      ∃ n result m', n ≤ fuel ∧ Config.run names fuel ⟨signal, ts, m⟩ = .finished result m' ∧
        ∀ k more, Config.run names (n + more) ⟨signal, ts ++ k, m⟩ =
          Config.run names more ⟨result, k, m'⟩ := by
  -- A step puts tasks before those that are left, so the hypothesis is about more of them.
  induction fuel generalizing signal ts m with
  | zero =>
    cases ts with
    | nil => exact .inr ⟨0, signal, m, Nat.le_refl 0, rfl, fun k more => by rw [Nat.zero_add]; rfl⟩
    | cons task ts => exact .inl ⟨⟨signal, task :: ts, m⟩, rfl, fun _ => rfl⟩
  | succ fuel ih =>
    cases ts with
    | nil =>
      refine .inr ⟨0, signal, m, Nat.zero_le _, rfl, fun k more => ?_⟩
      rw [Nat.zero_add, List.nil_append]
    | cons task ts =>
      -- The step is the same with more tasks after it, and so is what is left of it.
      obtain ⟨signal', ts', m', hstep⟩ := task.step_append names signal m
      simp only [List.cons_append, Config.run_succ_cons, hstep]
      obtain ⟨c, hc, hck⟩ | ⟨n, result, m'', hn, hdone, hmore⟩ := ih signal' (ts' ++ ts) m'
      · refine .inl ⟨c, hc, fun k => ?_⟩
        rw [← List.append_assoc]
        exact hck k
      · refine .inr ⟨n + 1, result, m'', Nat.succ_le_succ hn, hdone, fun k more => ?_⟩
        rw [Nat.add_right_comm, Config.run_succ_cons, hstep, ← List.append_assoc]
        exact hmore k more

/-- Nothing is left of the block, so one step drops it, whatever the signal. -/
theorem Task.step_run_nil (signal : Outcome Status) (k : List Task) (m : Machine σ H) :
    (Task.run []).step names signal k m = ⟨signal, k, m⟩ := by
  obtain s | (_ | _ | _) := signal
  all_goals rfl

/-- **A statement is executed in place** as on its own: from where it is the next one, a run comes to
the point after it. -/
theorem Machine.execute_append {fuel : Nat} {s : Stmt} {result : Outcome Status}
    (hs : m.execute names fuel s = .finished result m') (rest : List Stmt) (k : List Task) :
    ∃ n, ∀ more, Config.run names (n + more) ⟨.ok .ok, .run (s :: rest) :: k, m⟩ =
      Config.run names more ⟨result, .run rest :: k, m'⟩ := by
  cases fuel with
  | zero => cases hs
  | succ fuel =>
    -- The statement begins the same in both, and then its tasks are carried out before all others.
    obtain ⟨signal, ts, m₁, hk, -⟩ := s.begins names m
    have hrun : Config.run names fuel ⟨signal, ts ++ [.run []], m₁⟩ = .finished result m' := by
      rw [← hk]
      exact hs
    obtain ⟨c, -, hck⟩ | ⟨n, result', m₂, hn, -, hmore⟩ :=
      Config.run_append names fuel signal ts m₁
    · rw [hck] at hrun
      cases hrun
    · -- What is left of the block on its own is nothing, so `result'` is the result.
      obtain ⟨left, rfl⟩ := Nat.exists_eq_add_of_le hn
      rw [hmore] at hrun
      obtain ⟨rfl, rfl⟩ : result' = result ∧ m₂ = m' := by
        cases left with
        | zero => cases hrun
        | succ left =>
          rw [Config.run_succ_cons, Task.step_run_nil, Config.run_nil] at hrun
          cases hrun
          exact ⟨rfl, rfl⟩
      refine ⟨n + 1, fun more => ?_⟩
      have hstart : (Task.run (s :: rest)).step names (.ok .ok) k m =
          ⟨signal, ts ++ .run rest :: k, m₁⟩ := hk _
      rw [Nat.add_right_comm, Config.run_succ_cons, hstart]
      exact hmore _ more

/-! ### Whole programs -/

/-- The machine as a program leaves it that came to `result`. -/
def Machine.ended (result : Outcome Status) (m : Machine σ H) : Machine σ H :=
  match result with
  | .ok status => m.halt status
  | .error _ => m

omit [StringStore σ H] in
/-- A line in the log is all that comes after the last statement. -/
theorem Machine.ended_cases (result : Outcome Status) (m : Machine σ H) :
    m.ended result = m ∨ ∃ status, m.ended result = m.note (.programHalted status) := by
  cases result with
  | error s => exact .inl rfl
  | ok status =>
    by_cases hstatus : status = .ok
    · exact .inl (if_pos hstatus)
    · exact .inr ⟨status, if_neg hstatus⟩

/-- **A program ends** where its statements do. -/
theorem Machine.run_eq_finished_iff {fuel : Nat} {p : Program} {result : Outcome Status} :
    m.run names fuel p = .finished result m' ↔
      ∃ m₁, (m.load p).run names fuel = .finished result m₁ ∧ m₁.ended result = m' := by
  unfold Machine.run
  -- A run that is not over ends nowhere. One that is over adds what belongs to its end.
  cases (m.load p).run names fuel with
  | running c => exact ⟨nofun, nofun⟩
  | finished result₁ m₁ =>
    constructor
    · intro h
      cases result₁ with
      | error s =>
        cases h
        exact ⟨_, rfl, rfl⟩
      | ok status =>
        cases h
        exact ⟨_, rfl, rfl⟩
    · rintro ⟨_, ⟨⟩, rfl⟩
      cases result <;> rfl

/-- **A program** leaves as many frames and calls as it found, and while it runs there are as many
more as its tasks close. -/
theorem Machine.balanced_run (hm : m.env.Tidy) (fuel : Nat) (p : Program) :
    Balanced m (m.run names fuel p).machine (m.run names fuel p).control := by
  have hloaded : Balanced m m (m.load p).control := ⟨hm, rfl, rfl⟩
  have hrun := Config.balanced_run names hm.pos fuel (c := m.load p) hloaded
  unfold Machine.run
  revert hrun
  generalize (m.load p).run names fuel = progress
  intro hrun
  cases progress with
  | running c => exact hrun
  | finished result m' =>
    cases result with
    | error s => exact hrun
    | ok status =>
      -- A line in the log is all that may come after.
      dsimp only [Progress.machine, Progress.control, Machine.halt] at hrun ⊢
      split
      · exact hrun
      · exact ⟨hrun.tidy, hrun.size, hrun.calls⟩

end Append

namespace Machine

/-! ### Statements -/

/-- **What the statement `s` may change** of the frames and calls of a machine, however it
finishes. -/
structure Restores (s : Stmt) (m m' : Machine) : Prop where
  live : m'.env.live = m.env.live
  calls : m'.calls = m.calls
  /-- Each live frame is as it was but for new values, and gains names only if it is the innermost
  one and `s` is a declaration. -/
  frames : ∀ id ∈ m.env.live, ∃ f f' added, m.env.frames[id]? = some f ∧
    m'.env.frames[id]? = some f' ∧ f.Grows added f' ∧
      ∀ x ∈ added, id = m.env.current ∧ x ∈ s.declares

/-- **A statement that is executed** in a tidy machine restores it. -/
theorem restores_of_execute {names : Interner} {m m' : Machine} (hm : m.env.Tidy) {fuel : Nat}
    {s : Stmt} {result : Outcome Status} (hs : m.execute names fuel s = .finished result m') :
    m.Restores s m' := by
  cases fuel with
  | zero => cases hs
  | succ fuel =>
    -- The first step may declare a name; from then on the invariant holds.
    obtain ⟨signal, ts, m₁, hk, henters⟩ := s.begins names m
    have hrun : Config.run names fuel ⟨signal, ts ++ [.run []], m₁⟩ = .finished result m' := by
      rw [← hk]
      exact hs
    have hbefore : Balanced m m [.run []] := ⟨hm, rfl, rfl⟩
    have hwithin : Within s.declares m m₁ (ts ++ [.run []]) :=
      ⟨hbefore.enter henters, henters.env.grows, henters.housed _ trivial⟩
    have hend : Within s.declares m m' [] := Config.within_run names hm.pos fuel hwithin hrun
    -- Equally many frames are live, at the same places, since both machines are tidy.
    have hsize : m'.env.frames.size = m.env.frames.size := hend.size
    refine ⟨?_, hend.calls, fun id hid => ?_⟩
    · rw [hend.tidy.live, hm.live, hsize]
    -- A frame that was live still is, and has gained what the first step has declared.
    · have hlt : id < m.env.frames.size := (hm.mem_live id).mp hid
      obtain ⟨f', added, hf', hgrows, hadded⟩ := hend.grows id _ (Array.getElem?_eq_getElem hlt)
      exact ⟨_, f', added, Array.getElem?_eq_getElem hlt, hf', hgrows, hadded⟩

/-! ### Sessions -/

/-- **A machine that has run programs**, one after the other in its global frame, each to its end,
whatever that was. Nothing is asked of the programs and of the tables of names that they are run
with. -/
inductive Session : Machine → Prop
  | initial (printer : Printer) (maxCalls : Nat) : Session (.initial printer maxCalls)
  | run {m m' : Machine} {names : Interner} {fuel : Nat} {p : Program} {result : Outcome Status}
      (hm : Session m) (hrun : m.run names fuel p = .finished result m') : Session m'

/-- **Between programs** only the global frame is live, and no call is active. -/
theorem Session.global {m : Machine} (hm : m.Session) :
    m.env.Tidy ∧ m.env.live = #[FrameId.global] ∧ m.calls = 0 := by
  -- Each program of the session leaves what it has found.
  induction hm with
  | initial printer maxCalls => exact ⟨Environment.tidy_initial, rfl, rfl⟩
  | @run m m' names fuel p result _ hrun ih =>
    obtain ⟨htidy, hlive, hcalls⟩ := ih
    have hend := balanced_run names htidy fuel p
    rw [hrun] at hend
    -- No task is left, so no scope and no call is open but those from before.
    have hcalls' : m'.calls = m.calls := hend.calls
    refine ⟨hend.tidy, ?_, hcalls'.trans hcalls⟩
    have hsize : m'.env.frames.size = m.env.frames.size := hend.size
    rw [← hlive, htidy.live, ← hsize]
    exact hend.tidy.live

/-- **A statement that is executed at any point of a run** in a session leaves the frames and calls as
they were, however it finishes, but for new values and for what a declaration adds to the innermost
frame. Where it is the next one of a run, the run goes on from just this machine. -/
theorem Session.restores {m₀ m m' : Machine} (hm₀ : m₀.Session) {names : Interner} {p : Program}
    {fuel : Nat} (hm : ((m₀.load p).run names fuel).machine = m) {names' : Interner} {s : Stmt}
    {fuel' : Nat} {result : Outcome Status}
    (hs : m.execute names' fuel' s = .finished result m') :
    m.Restores s m' ∧
      ∀ rest k, ∃ n, ∀ more,
        Config.run names' (n + more) ⟨.ok .ok, .run (s :: rest) :: k, m⟩ =
          Config.run names' more ⟨result, .run rest :: k, m'⟩ := by
  have htidy₀ : m₀.env.Tidy := hm₀.global.1
  have hloaded : Balanced m₀ m₀ (m₀.load p).control := ⟨htidy₀, rfl, rfl⟩
  -- Every point of the run is tidy, so a statement that is executed there restores it.
  have hpoint := Config.balanced_run names htidy₀.pos fuel (c := m₀.load p) hloaded
  have htidy : m.env.Tidy := hm ▸ hpoint.tidy
  exact ⟨restores_of_execute htidy hs, execute_append names' hs⟩

/-- A loop that is left by `break`, in a session whose first program failed inside a loop. -/
theorem Session.restores_breakLoop :
    let x : Name := .empty
    let failing : Stmt := .whileDo (.bool true) [.whileDo (.int 1) []]
    let s : Stmt := .whileDo (.bool true) [.declare x (.int 1), .breakLoop]
    let m₀ := ((Machine.initial .silent 8).run .initial 9 [failing]).machine
    let m := ((m₀.load [.declare x (.int 2), s]).run .initial 2).machine
    ∃ m', m.execute .initial 9 s = .finished (.ok .ok) m' ∧ m.Restores s m' := by
  intro x failing s m₀ m
  have hfailing : (Machine.initial .silent 8).run .initial 9 [failing] =
      .finished (.error (.error (.typeMismatch .whileCondition [.integer]))) m₀ := rfl
  obtain ⟨m', hs⟩ : ∃ m', m.execute .initial 9 s = .finished (.ok .ok) m' := ⟨_, rfl⟩
  have hm₀ : m₀.Session := (Session.initial .silent 8).run hfailing
  have hm : ((m₀.load [.declare x (.int 2), s]).run .initial 2).machine = m := rfl
  exact ⟨m', hs, (hm₀.restores hm hs).1⟩

end Machine

end Silly
