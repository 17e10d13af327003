import Silly.Proofs.Machine.Session
import Silly.Proofs.Machine.Start

/-!
# The limit on calls only cuts runs short

Two runs of a program that differ in nothing but the limit on calls are compared here. A step asks
for the limit at most once, and takes no more of it than whether a call may begin. So there is a
least limit that is enough for the step (`Machine.Forks`): it is the same step with this limit and
with every greater one, and with a smaller one it is the refusal of a call, which prints nothing.

As long as the smaller limit is enough, the two runs take the same steps, and come to machines that
differ in their limits only (`Config.run_of_le`). The first refusal ends the run with the smaller
limit, since no task turns an error into anything else (`Config.run_stopped`). The other run goes on
from the same point, and all that it can do to the lines that were printed is to add more
(`Config.follows_run`).
-/

namespace Silly

namespace Machine

/-- **A machine that `base` comes to** has the same limit. No more calls are active than the limit
allows, unless they were at first, and printed lines are only added to. -/
structure Follows (base m : Machine) : Prop where
  limit : m.maxCalls = base.maxCalls
  calls : m.calls ≤ max base.calls base.maxCalls
  printed : base.printer.Precedes m.printer

/-- **What calls nothing**: it begins alike whatever the limit is, and does not come to the limit. -/
def Proceeds (m : Machine) (f : List Task → Machine → Config) : Prop :=
  ∃ signal ts m', m.Starts f signal ts m' ∧ m.Quiet m' ∧ Unlimited signal

/-- **The limit `n` refuses a call** in the machine `m`, and the run comes to the point `c`. -/
def Refuses (m : Machine) (n : Nat) (c : Config) : Prop :=
  ∃ (k : List Task) (m' : Machine), c = ⟨.error (.limit n), k, m'.withLimit n⟩ ∧
    m'.calls ≤ m.calls ∧ m'.printer = m.printer

/-- **What a step comes to, by the limit**: to the signal, the tasks and the machine that are given
where the limit is at least `least`, and to the refusal of a call where it is smaller. -/
structure Forks (m : Machine) (f : List Task → Machine → Config) (least : Nat)
    (signal : Outcome Status) (ts : List Task) (m' : Machine) : Prop where
  taken : ∀ n k, least ≤ n → f k (m.withLimit n) = ⟨signal, ts ++ k, m'.withLimit n⟩
  refused : ∀ n k, n < least → m.Refuses n (f k (m.withLimit n))
  /-- A call begins only where the limit allows one more than were active. -/
  calls : m'.calls ≤ max m.calls least
  printed : m.printer.Precedes m'.printer

/-- **A step that asks for the limit once at most**, after the signal `before`. It does not come to
the limit where the limit is enough. -/
def Asks (m : Machine) (before : Outcome Status) (f : List Task → Machine → Config) : Prop :=
  ∃ least signal ts m', m.Forks f least signal ts m' ∧ (Unlimited before → Unlimited signal)

namespace Follows

variable {m m' m'' : Machine}

theorem refl (m : Machine) : m.Follows m := ⟨rfl, Nat.le_max_left .., .refl m.printer⟩

/-- What comes to one machine and goes on from there. -/
theorem trans (h : m.Follows m') (h' : m'.Follows m'') : m.Follows m'' where
  limit := h'.limit.trans h.limit
  calls := by
    have hcalls := h.calls
    have hcalls' := h'.calls
    -- The limit is the same in all three machines, so the two bounds are about one number.
    rw [h.limit] at hcalls'
    omega
  printed := h.printed.trans h'.printed

end Follows

/-! ### Steps by the limit -/

section Asks

variable {m m' : Machine} {before signal : Outcome Status} {ts : List Task}
  {f : List Task → Machine → Config}

/-- **What starts alike with every limit** has no need to ask for it. -/
theorem Starts.asks (h : m.Starts f signal ts m') (hcalls : m'.calls ≤ m.calls)
    (hprinted : m.printer.Precedes m'.printer)
    (hsignal : Unlimited before → Unlimited signal) : m.Asks before f := by
  -- Every limit is enough, so no limit refuses it.
  refine ⟨0, signal, ts, m', ⟨fun n k _ => h n k, fun n k hn => ?_, ?_, hprinted⟩, hsignal⟩
  · exact absurd hn (Nat.not_lt_zero n)
  · exact Nat.le_trans hcalls (Nat.le_max_left ..)

/-- What calls nothing has no need to ask. -/
theorem Proceeds.asks (h : m.Proceeds f) : m.Asks before f := by
  obtain ⟨signal, ts, m', hstarts, hquiet, hsignal⟩ := h
  exact hstarts.asks (Nat.le_of_eq hquiet.calls) hquiet.printed fun _ => hsignal

theorem Settles.asks (h : m.Settles f) : m.Asks before f := by
  obtain ⟨signal, m', hstarts, hquiet, hsignal⟩ := h
  have hproceeds : m.Proceeds f := ⟨signal, [], m', hstarts, hquiet, hsignal⟩
  exact hproceeds.asks

/-- **A call** needs a limit of one more than the calls that are active. -/
theorem Calls.asks {sub : Subroutine} (h : m.Calls f sub) : m.Asks before f := by
  obtain ⟨m₁, hquiet₁, hprinter, hrefused⟩ := h.refused
  -- A limit that is smaller leaves no room for one more call.
  have hrefused' (n : Nat) (k : List Task) (hn : n < m.calls + 1) :
      m.Refuses n (f k (m.withLimit n)) :=
    ⟨k, m₁, hrefused n k (Nat.le_of_lt_succ hn), Nat.le_of_eq hquiet₁.calls, hprinter⟩
  -- With a limit that is enough, the frame cannot be made or the body is to be run.
  obtain ⟨signal, m', hquiet, hsignal, hfailed⟩ | ⟨m', hquiet, hbegun⟩ := h.entered
  · refine ⟨m.calls + 1, signal, [], m', ⟨fun n k hn => hfailed n k hn, hrefused', ?_,
      hquiet.printed⟩, fun _ => hsignal⟩
    exact Nat.le_trans (Nat.le_of_eq hquiet.calls) (Nat.le_max_left ..)
  · refine ⟨m.calls + 1, .ok .ok, [.run sub.body, .leaveScope, .leaveCall], m'.beginCall,
      ⟨fun n k hn => hbegun n k hn, hrefused', ?_, hquiet.printed⟩, fun _ => unlimited_ok Status.ok⟩
    -- The body runs with one call more, which is just what the limit allows.
    have hcalls : m'.beginCall.calls = m.calls + 1 := congrArg (· + 1) hquiet.calls
    rw [hcalls]
    exact Nat.le_max_right ..

/-- What asks before some tasks asks before one more. -/
theorem Asks.cons (h : m.Asks before f) (task : Task) :
    m.Asks before fun k => f (task :: k) := by
  obtain ⟨least, signal, ts, m', hforks, hsignal⟩ := h
  refine ⟨least, signal, ts ++ [task], m', ⟨fun n k hn => ?_, fun n k hn => ?_, hforks.calls,
    hforks.printed⟩, hsignal⟩
  -- The further task stands behind what the step leaves, and the step does not look at it.
  · rw [List.append_assoc]
    exact hforks.taken n (task :: k) hn
  · exact hforks.refused n (task :: k) hn

end Asks

end Machine

section Steps

variable (names : Interner)

/-- The arms of an `if` begin a body at most. The calls in it come later. -/
theorem Arms.proceeds : ∀ (arms : Arms) (m : Machine), m.Proceeds fun k m => arms.start names k m
  | .done, m => ⟨.ok .ok, [], m, fun _ _ => rfl, .refl m, unlimited_ok Status.ok⟩
  | .otherwise body, m =>
    ⟨.ok .ok, [.run body, .leaveScope], m.enterScope, fun _ _ => rfl, ⟨rfl, rfl, [], rfl⟩,
      unlimited_ok Status.ok⟩
  | .arm cond body rest, m => by
    obtain ⟨r, m₁, htest, hquiet, hr⟩ := m.computes_test names .ifCondition cond
    -- The test stops the `if`, or fails, or holds.
    obtain s | (_ | _) := r
    · refine ⟨.error s, [], m₁, fun n k => ?_, hquiet, raises_error hr.of_error⟩
      simp only [Arms.start, htest]
      rfl
    · obtain ⟨signal, ts, m₂, hrest, hquiet', hsignal⟩ := rest.proceeds m₁
      refine ⟨signal, ts, m₂, fun n k => ?_, hquiet.trans hquiet', hsignal⟩
      simp only [Arms.start, htest]
      exact hrest n k
    · have henter : m₁.Quiet m₁.enterScope := ⟨rfl, rfl, [], rfl⟩
      refine ⟨.ok .ok, [.run body, .leaveScope], m₁.enterScope, fun n k => ?_,
        hquiet.trans henter, unlimited_ok Status.ok⟩
      simp only [Arms.start, htest]
      rfl

/-- A loop that goes on tests its condition, and begins its body at most. -/
theorem proceeds_whileDo (cond : Expr) (body : Block) (m : Machine) :
    m.Proceeds fun k m => (Task.whileDo cond body).step names (.ok .ok) k m := by
  obtain ⟨r, m₁, htest, hquiet, hr⟩ := m.computes_test names .whileCondition cond
  -- The condition stops the loop, or it is over, or its body is begun.
  obtain s | (_ | _) := r
  · refine ⟨.error s, [], m₁, fun n k => ?_, hquiet, raises_error hr.of_error⟩
    simp only [Task.step, htest]
    rfl
  · refine ⟨.ok .ok, [], m₁, fun n k => ?_, hquiet, unlimited_ok Status.ok⟩
    simp only [Task.step, htest]
    rfl
  · have henter : m₁.Quiet m₁.enterScope := ⟨rfl, rfl, [], rfl⟩
    refine ⟨.ok .ok, [.run body, .leaveScope, .whileDo cond body], m₁.enterScope, fun n k => ?_,
      hquiet.trans henter, unlimited_ok Status.ok⟩
    simp only [Task.step, htest]
    rfl

/-- **A statement asks for the limit once at most**: only a call does. -/
theorem Stmt.asks (s : Stmt) (m : Machine) : m.Asks (.ok .ok) fun k m => s.start names k m := by
  -- What leaves the machine as it is proceeds.
  have hstays (signal : Outcome Status) (ts : List Task) (hsignal : Unlimited signal)
      (hstarts : m.Starts (fun k m => s.start names k m) signal ts m) :
      m.Asks (.ok .ok) fun k m => s.start names k m :=
    hstarts.asks (Nat.le_refl _) (.refl _) fun _ => hsignal
  cases s with
  | assign x e => exact (m.settles_assign names x e).asks
  | declare x e => exact (m.settles_declareStore names x e).asks
  | print e => exact (m.settles_printValue names e).asks
  | ifElse arms => exact (arms.proceeds names m).asks
  | whileDo cond body =>
    exact hstays (.ok .ok) [.whileDo cond body] (unlimited_ok _) fun _ _ => rfl
  | repeatTimes count body =>
    obtain hsettles | ⟨left, m', hstarts, hquiet⟩ := m.beginRepeat_cases names count body
    · exact hsettles.asks
    · exact hstarts.asks (Nat.le_of_eq hquiet.calls) hquiet.printed id
  | sub x body =>
    obtain hsettles | ⟨m', scope, hstarts, hquiet⟩ := m.define_cases names x body
    · exact hsettles.asks
    · exact hstarts.asks (Nat.le_of_eq hquiet.calls) hquiet.printed id
  | call x =>
    -- Only here is the limit asked for, if there is a subroutine to be called.
    obtain hsettles | ⟨sub, -, hcalls⟩ := m.call_cases names x
    · exact hsettles.asks
    · exact hcalls.asks
  | exit => exact hstays (.ok .exit) [] (unlimited_ok _) fun _ _ => rfl
  | breakLoop => exact hstays (.ok .break) [] (unlimited_ok _) fun _ _ => rfl

/-- **A step asks for the limit once at most.** -/
theorem Task.asks (task : Task) (signal : Outcome Status) (m : Machine) :
    m.Asks signal fun k m => task.step names signal k m := by
  -- A task that is dropped leaves the machine as it is, and so does a loop that is over.
  have hstays (signal' : Outcome Status) (hsignal : Unlimited signal → Unlimited signal')
      (hstarts : m.Starts (fun k m => task.step names signal k m) signal' [] m) :
      m.Asks signal fun k m => task.step names signal k m :=
    hstarts.asks (Nat.le_refl _) (.refl _) hsignal
  cases task with
  | run rest =>
    obtain s | (_ | _ | _) := signal
    case ok.ok =>
      cases rest with
      | nil => exact hstays _ id fun _ _ => rfl
      | cons s rest => exact (s.asks names m).cons (.run rest)
    all_goals exact hstays _ id fun _ _ => rfl
  | leaveScope =>
    have hstarts : m.Starts (fun k m => Task.leaveScope.step names signal k m) signal []
        m.leaveScope := fun _ _ => rfl
    exact hstarts.asks (Nat.le_refl _) (.refl _) id
  | leaveCall =>
    have hstarts : m.Starts (fun k m => Task.leaveCall.step names signal k m) signal []
        m.leaveCall := fun _ _ => rfl
    -- The end of a call makes the number of calls smaller, if it makes any difference.
    exact hstarts.asks (Nat.sub_le _ _) (.refl _) id
  | whileDo cond body =>
    obtain s | (_ | _ | _) := signal
    case ok.ok => exact (proceeds_whileDo names cond body m).asks
    case ok.break => exact hstays _ (fun _ => unlimited_ok _) fun _ _ => rfl
    all_goals exact hstays _ id fun _ _ => rfl
  | repeatTimes left body =>
    obtain s | (_ | _ | _) := signal
    case ok.ok =>
      cases left with
      | zero => exact hstays _ id fun _ _ => rfl
      | succ left =>
        have hstarts : m.Starts (fun k m =>
            (Task.repeatTimes (left + 1) body).step names (.ok .ok) k m) (.ok .ok)
            [.run body, .leaveScope, .repeatTimes left body] m.enterScope := fun _ _ => rfl
        exact hstarts.asks (Nat.le_refl _) (.refl _) id
    case ok.break => exact hstays _ (fun _ => unlimited_ok _) fun _ _ => rfl
    all_goals exact hstays _ id fun _ _ => rfl

end Steps

/-! ### Runs by the limit -/

section Runs

variable (names : Interner)

/-- **A step** keeps to the limit and only adds to the printed lines. -/
theorem Task.follows_step (task : Task) (signal : Outcome Status) (k : List Task) (m : Machine) :
    m.Follows (task.step names signal k m).machine := by
  obtain ⟨least, signal', ts, m', hforks, -⟩ := task.asks names signal m
  -- The machine has a limit of its own, which is enough for the step or is not.
  obtain hn | hn := Nat.lt_or_ge m.maxCalls least
  · obtain ⟨k', m₁, hstep, hcalls, hprinter⟩ := hforks.refused m.maxCalls k hn
    rw [m.withLimit_maxCalls] at hstep
    rw [hstep]
    exact ⟨rfl, Nat.le_trans hcalls (Nat.le_max_left ..), [], hprinter⟩
  · have hstep := hforks.taken m.maxCalls k hn
    rw [m.withLimit_maxCalls] at hstep
    rw [hstep]
    have hcalls : m'.calls ≤ max m.calls m.maxCalls := by
      have hcalls := hforks.calls
      omega
    exact ⟨rfl, hcalls, hforks.printed⟩

/-- **Every point of a run** keeps to the limit, and has all lines that were printed before. -/
theorem Config.follows_run (fuel : Nat) (c : Config) :
    c.machine.Follows (c.run names fuel).machine := by
  -- What was added up to some point is kept by the step from there.
  have hstep (signal : Outcome Status) (task : Task) (k : List Task) (m : Machine)
      (hm : c.machine.Follows m) := hm.trans (task.follows_step names signal k m)
  obtain ⟨c', hrun, hc'⟩ | ⟨result, m, hrun, hm⟩ :=
    Config.run_invariant names (P := fun c' => c.machine.Follows c'.machine) hstep fuel (.refl _)
  · rw [hrun]
    exact hc'
  · rw [hrun]
    exact hm

/-- No task heeds an error. -/
theorem Task.step_error (task : Task) (s : Stop) (k : List Task) (m : Machine) :
    ∃ m', task.step names (.error s) k m = ⟨.error s, k, m'⟩ ∧ m'.printer = m.printer := by
  cases task with
  | leaveScope => exact ⟨m.leaveScope, rfl, rfl⟩
  | leaveCall => exact ⟨m.leaveCall, rfl, rfl⟩
  | _ => exact ⟨m, rfl, rfl⟩

/-- **A run that was stopped** ends with what stopped it, and prints nothing more. -/
theorem Config.run_stopped {fuel : Nat} {s : Stop} {k : List Task} {m m' : Machine}
    {result : Outcome Status} (hrun : Config.run names fuel ⟨.error s, k, m⟩ = .finished result m') :
    result = .error s ∧ m'.printer = m.printer := by
  -- The induction is on the tasks, each of which takes one step and heeds no error.
  induction k generalizing fuel m with
  | nil =>
    rw [Config.run_nil] at hrun
    cases hrun
    exact ⟨rfl, rfl⟩
  | cons task k ih =>
    cases fuel with
    | zero => cases hrun
    | succ fuel =>
      obtain ⟨m₁, hstep, hprinter⟩ := task.step_error names s k m
      rw [Config.run_succ_cons, hstep] at hrun
      obtain ⟨hresult, hprinter'⟩ := ih hrun
      exact ⟨hresult, hprinter'.trans hprinter⟩

variable {n n' : Nat} {signal result : Outcome Status} {k : List Task} {m m₁ : Machine}

/-- **A run that ends without having come to its limit** is the same run with every greater limit. -/
theorem Config.run_of_le (hn : n ≤ n') {fuel : Nat}
    (hrun : Config.run names fuel ⟨signal, k, m.withLimit n⟩ = .finished result m₁)
    (hresult : ∀ l, result ≠ .error (.limit l)) :
    Config.run names fuel ⟨signal, k, m.withLimit n'⟩ = .finished result (m₁.withLimit n') := by
  -- The induction is on the steps of the run with the smaller limit.
  induction fuel generalizing signal k m with
  | zero =>
    cases k with
    | nil =>
      cases hrun
      rfl
    | cons task k => cases hrun
  | succ fuel ih =>
    cases k with
    | nil =>
      cases hrun
      rfl
    | cons task k =>
      obtain ⟨least, signal', ts, m', hforks, -⟩ := task.asks names signal m
      rw [Config.run_succ_cons] at hrun ⊢
      obtain hless | hless := Nat.lt_or_ge n least
      · -- The limit has refused a call, and this is what the run has ended with.
        obtain ⟨k', m₂, hstep, -⟩ := hforks.refused n k hless
        rw [hstep] at hrun
        exact absurd (Config.run_stopped names hrun).1 (hresult n)
      -- Enough for the one is enough for the other, so both take the same step.
      · rw [hforks.taken n k hless] at hrun
        rw [hforks.taken n' k (Nat.le_trans hless hn)]
        exact ih hrun

/-- **A run that ends at its limit** has printed what every run with a greater limit begins with. -/
theorem Config.run_limited (hn : n ≤ n') (hsignal : Unlimited signal) {fuel l : Nat}
    (hrun : Config.run names fuel ⟨signal, k, m.withLimit n⟩ =
      .finished (.error (.limit l)) m₁) :
    l = n ∧ ∀ fuel' result' m₂,
      Config.run names fuel' ⟨signal, k, m.withLimit n'⟩ = .finished result' m₂ →
        m₁.printer.Precedes m₂.printer := by
  -- The induction is on the steps again, up to the one that the limit refuses.
  induction fuel generalizing signal k m with
  | zero =>
    cases k with
    | nil =>
      cases hrun
      -- A run is not over at its limit before it has taken a step.
      exact absurd rfl (hsignal.of_error l)
    | cons task k => cases hrun
  | succ fuel ih =>
    cases k with
    | nil =>
      cases hrun
      exact absurd rfl (hsignal.of_error l)
    | cons task k =>
      obtain ⟨least, signal', ts, m', hforks, hsignal'⟩ := task.asks names signal m
      rw [Config.run_succ_cons] at hrun
      obtain hless | hless := Nat.lt_or_ge n least
      · -- Here the runs part. Up to here they have printed the same.
        obtain ⟨k', m₂, hstep, -, hprinter⟩ := hforks.refused n k hless
        rw [hstep] at hrun
        obtain ⟨hresult, hprinter'⟩ := Config.run_stopped names hrun
        cases hresult
        refine ⟨rfl, fun fuel' result' m₃ hrun' => ?_⟩
        have hfollows := Config.follows_run names fuel' ⟨signal, task :: k, m.withLimit n'⟩
        rw [hrun'] at hfollows
        have hsame : m₁.printer = m.printer := hprinter'.trans hprinter
        rw [hsame]
        exact hfollows.printed
      -- The limit was enough for this step, so the runs part at a later one.
      · rw [hforks.taken n k hless] at hrun
        obtain ⟨rfl, hmore⟩ := ih (hsignal' hsignal) hrun
        refine ⟨rfl, fun fuel' result' m₃ hrun' => ?_⟩
        cases fuel' with
        | zero => cases hrun'
        | succ fuel' =>
          rw [Config.run_succ_cons, hforks.taken n' k (Nat.le_trans hless hn)] at hrun'
          exact hmore fuel' result' m₃ hrun'

end Runs

/-! ### Programs by the limit -/

/-- What a run has ended with, if it has. -/
def Progress.result? : Progress → Option (Outcome Status)
  | .finished result _ => some result
  | .running _ => none

/-- What a run has ended with, it has ended with in some machine. -/
theorem Progress.exists_of_result? {r : Progress} {a : Outcome Status} (h : r.result? = some a) :
    ∃ m, r = .finished a m := by
  cases r with
  | finished result m =>
    cases h
    exact ⟨m, rfl⟩
  | running c => cases h

namespace Machine

/-- Nothing is printed at the end of a program. -/
theorem ended_printer (result : Outcome Status) (m : Machine) :
    (m.ended result).printer = m.printer := by
  obtain hended | ⟨status, hended⟩ := m.ended_cases result
  · rw [hended]
  · rw [hended]
    rfl

/-- The limit is no part of what a program adds to the log when it ends. -/
theorem ended_withLimit (result : Outcome Status) (m : Machine) (n : Nat) :
    (m.withLimit n).ended result = (m.ended result).withLimit n := by
  cases result with
  | error s => rfl
  | ok status =>
    change (m.withLimit n).halt status = (m.halt status).withLimit n
    unfold halt
    split
    · rfl
    · rfl

/-- **A run of a program** keeps to the limit, and only adds to the printed lines. -/
theorem follows_run (names : Interner) (fuel : Nat) (m : Machine) (p : Program) :
    m.Follows (m.run names fuel p).machine := by
  have hpoint := Config.follows_run names fuel (m.load p)
  unfold Machine.run
  -- The end of the program changes the log at most, so it is enough to look at its statements.
  revert hpoint
  generalize (m.load p).run names fuel = progress
  intro hpoint
  cases progress with
  | running c => exact hpoint
  | finished result m' =>
    cases result with
    | error s => exact hpoint
    | ok status =>
      change m.Follows (m'.ended (.ok status))
      obtain hended | ⟨status', hended⟩ := m'.ended_cases (.ok status)
      · rw [hended]
        exact hpoint
      · rw [hended]
        exact ⟨hpoint.limit, hpoint.calls, hpoint.printed⟩

/-- **The limit on calls only cuts a run short.** Of two runs that start with the limits `n` and
`n'`, where `n ≤ n'`:

* at no point of the first one are more than `n` calls active;
* if it ends with anything but the limit, the second one ends with the same, after as many steps, and
  in a machine that differs in its limit only;
* if it ends with the limit, this limit is `n`, and the second one has printed the same lines and then
  maybe more, however it ends. -/
theorem limit_cuts_short (names : Interner) (p : Program) (printer : Printer) (log : List Event)
    {n n' : Nat} (hn : n ≤ n') :
    let start (limit : Nat) : Machine := { initial printer limit with log := log }
    (∀ fuel, activeCalls ((start n).run names fuel p).control =
        ((start n).run names fuel p).machine.calls ∧
      ((start n).run names fuel p).machine.calls ≤ n) ∧
    (∀ fuel result m, (start n).run names fuel p = .finished result m →
      (∀ l, result ≠ .error (.limit l)) →
        (start n').run names fuel p = .finished result (m.withLimit n')) ∧
    ∀ fuel l m, (start n).run names fuel p = .finished (.error (.limit l)) m →
      l = n ∧ ∀ fuel' result m', (start n').run names fuel' p = .finished result m' →
        ∃ lines, m'.printer = m.printer.after lines := by
  intro start
  refine ⟨fun fuel => ?_, fun fuel result m hrun hresult => ?_, fun fuel l m hrun => ?_⟩
  -- As many calls are active as the tasks will end, and these are no more than the limit allows.
  · have hbalanced := balanced_run names (m := start n) Environment.tidy_initial fuel p
    have hcalls : ((start n).run names fuel p).machine.calls =
        0 + activeCalls ((start n).run names fuel p).control := hbalanced.calls
    have hmax : ((start n).run names fuel p).machine.calls ≤ max 0 n :=
      (follows_run names fuel (start n) p).calls
    omega
  -- The two runs take the same steps, and both add the same to the log.
  · obtain ⟨m₁, hload, rfl⟩ := (run_eq_finished_iff names).mp hrun
    have hgreater : ((start n').load p).run names fuel = .finished result (m₁.withLimit n') :=
      Config.run_of_le names (m := start n) hn hload hresult
    rw [← ended_withLimit]
    exact (run_eq_finished_iff names).mpr ⟨_, hgreater, rfl⟩
  -- The first run was refused a call, and what it has printed the second one had printed there.
  · obtain ⟨m₁, hload, rfl⟩ := (run_eq_finished_iff names).mp hrun
    obtain ⟨hlimit, hmore⟩ :=
      Config.run_limited names (m := start n) hn (unlimited_ok Status.ok) hload
    refine ⟨hlimit, fun fuel' result m' hrun' => ?_⟩
    obtain ⟨m₂, hload', rfl⟩ := (run_eq_finished_iff names).mp hrun'
    rw [ended_printer, ended_printer]
    exact hmore fuel' result m₂ hload'

/-- A call inside a call, which the limit 1 refuses and the limit 2 does not. -/
theorem limit_cuts_short_nested :
    let x : Name := ⟨20⟩
    let y : Name := ⟨21⟩
    let names := ((Interner.initial.intern "x").2.intern "y").2
    let p : Program := [.sub y [], .sub x [.call y], .print (.int 1), .call x, .print (.int 2)]
    ∃ m m', (initial (.buffer "") 1).run names 20 p = .finished (.error (.limit 1)) m ∧
      (initial (.buffer "") 2).run names 20 p = .finished (.ok .ok) m' ∧
      ∃ lines, m'.printer = m.printer.after lines := by
  intro x y names p
  obtain ⟨m, hm⟩ := Progress.exists_of_result? (r := (initial (.buffer "") 1).run names 20 p)
    (a := .error (.limit 1)) (by decide +kernel)
  obtain ⟨m', hm'⟩ := Progress.exists_of_result? (r := (initial (.buffer "") 2).run names 20 p)
    (a := .ok .ok) (by decide +kernel)
  obtain ⟨-, hmore⟩ :=
    (limit_cuts_short names p (.buffer "") [] (Nat.le_succ 1)).2.2 20 1 m hm
  exact ⟨m, m', hm, hm', hmore 20 (.ok .ok) m' hm'⟩

end Machine

end Silly
