import Silly.Proofs.Machine.Nest
import Silly.Proofs.Machine.Rules

/-!
# The log of a run is well bracketed

A scope and a call each leave two events, one when they begin and one when they end. These events nest like
brackets of two kinds, and the depth that the event of a scope gives counts the scopes that are open after
it (`Bracketed`). It is the tasks that make it so. The end of a scope or of a call is a task from the moment
it begins, and no task is taken out of the order in which the others stand. So the brackets that are open at
some point of a run are those that the tasks close, the innermost one first (`brackets`), and the events so
far are well bracketed but for these (`LeavesOpen`). Each rule keeps this, whatever the signal is
(`Task.Leaves.marked`), and when no tasks are left no bracket is open.

A call that is refused is no exception. The span of the call is entered and left in one step, without a
scope. As nothing heeds the error, all that comes after in the log is ends.
-/

namespace Silly

/-! ### Brackets -/

/-- **What has a beginning and an end in the log.** -/
inductive Bracket
  | scope
  | call

namespace Bracket

/-- How many scopes are open inside a bracket that has `n` of them around it. -/
def inside (n : Nat) : Bracket → Nat
  | scope => n + 1
  | call => n

/-- The event with which a bracket begins. The frame of the whole program counts as well. -/
def opening (n : Nat) : Bracket → Event
  | scope => .beginScope (1 + (n + 1))
  | call => .enterCall

/-- The event with which a bracket ends. -/
def closing (n : Nat) : Bracket → Event
  | scope => .endScope (1 + n)
  | call => .exitCall

end Bracket

/-- Whether an event is the beginning or the end of a bracket. -/
def Event.IsBracket : Event → Prop
  | .beginScope _ | .endScope _ | .enterCall | .exitCall => True
  | _ => False

/-- Whether an event is the end of a bracket. -/
def Event.IsEnd : Event → Prop
  | .endScope _ | .exitCall => True
  | _ => False

/-- **Events that are well bracketed**, oldest first, inside of `n` open scopes: other events, and pairs
that have well bracketed events in between. -/
inductive Bracketed : Nat → List Event → Prop
  | nil {n : Nat} : Bracketed n []
  | other {n : Nat} {e : Event} {es : List Event} : ¬ e.IsBracket → Bracketed n es →
      Bracketed n (e :: es)
  | pair {n : Nat} {inner es : List Event} (b : Bracket) : Bracketed (b.inside n) inner →
      Bracketed n es → Bracketed n (b.opening n :: (inner ++ b.closing n :: es))

/-- Well bracketed events may follow one another. -/
theorem Bracketed.append {n : Nat} {es es' : List Event} (h : Bracketed n es)
    (h' : Bracketed n es') : Bracketed n (es ++ es') := by
  induction h with
  | nil => exact h'
  | other he _ ih => exact .other he (ih h')
  | pair b hinner _ _ ih =>
    rw [List.cons_append, List.append_assoc, List.cons_append]
    exact .pair b hinner (ih h')

/-- How many scopes are among open brackets. -/
def openScopes : List Bracket → Nat
  | [] => 0
  | b :: bs => b.inside (openScopes bs)

/-- **Events that leave brackets open**, the innermost one first. Before each of them and after it the
events are well bracketed. -/
inductive LeavesOpen : List Bracket → List Event → Prop
  | nil {es : List Event} : Bracketed 0 es → LeavesOpen [] es
  | cons {b : Bracket} {bs : List Bracket} {before inner : List Event} : LeavesOpen bs before →
      Bracketed (openScopes (b :: bs)) inner →
      LeavesOpen (b :: bs) (before ++ b.opening (openScopes bs) :: inner)

namespace LeavesOpen

variable {b : Bracket} {bs : List Bracket} {es es' : List Event}

/-- What comes after open brackets belongs to the innermost one. -/
theorem append (h : LeavesOpen bs es) (h' : Bracketed (openScopes bs) es') : LeavesOpen bs (es ++ es') := by
  cases h with
  | nil hes => exact .nil (hes.append h')
  -- The new events are inside of the innermost bracket, as those before them are.
  | cons hbefore hinner =>
    rw [List.append_assoc, List.cons_append]
    exact .cons hbefore (hinner.append h')

/-- **A bracket begins.** -/
theorem begin (h : LeavesOpen bs es) (b : Bracket) :
    LeavesOpen (b :: bs) (es ++ [b.opening (openScopes bs)]) := .cons h .nil

/-- **The innermost bracket ends**, and is a pair with what it has inside. -/
theorem finish (h : LeavesOpen (b :: bs) es) : LeavesOpen bs (es ++ [b.closing (openScopes bs)]) := by
  cases h with
  | @cons _ _ before inner hbefore hinner =>
    -- With its end, what the bracket has inside makes a pair.
    have hpair : Bracketed (openScopes bs)
        (b.opening (openScopes bs) :: (inner ++ [b.closing (openScopes bs)])) :=
      .pair b hinner .nil
    rw [List.append_assoc, List.cons_append]
    exact hbefore.append hpair

end LeavesOpen

/-! ### The brackets that tasks close -/

/-- **The brackets that the tasks close**, the innermost one first. -/
def brackets : List Task → List Bracket
  | [] => []
  | .leaveScope :: k => .scope :: brackets k
  | .leaveCall :: k => .call :: brackets k
  | .run _ :: k | .whileDo _ _ :: k | .repeatTimes _ _ :: k => brackets k

variable {names : Interner} {log : List Event} {bs : List Bracket} {m m' : Machine}
  {signal signal' : Outcome Status} {k ts : List Task}

theorem Environment.depth_store {α : Type} (env : Environment α) (x : Name) (v : α) :
    (env.store x v).2.depth = env.depth := by
  unfold Environment.store
  split
  all_goals rfl

theorem Environment.depth_declare {α : Type} (env : Environment α) (x : Name) :
    (env.declare x).2.depth = env.depth := by
  unfold Environment.declare
  split
  all_goals rfl

/-- **A machine that has left brackets open** since its log was `log`. -/
structure Marked (log : List Event) (bs : List Bracket) (m : Machine) : Prop where
  events : ∃ es, m.log = es.reverse ++ log ∧ LeavesOpen bs es
  depth : m.env.depth = 1 + openScopes bs

namespace Marked

/-- What notes nothing and opens no frame. -/
theorem finish (h : Marked log bs m) (hlog : m'.log = m.log) (hdepth : m'.env.depth = m.env.depth) :
    Marked log bs m' where
  events := hlog ▸ h.events
  depth := hdepth.trans h.depth

/-- **More events.** Those of the machine are held newest first. -/
theorem extend {bs' : List Bracket} (h : Marked log bs m) {e : Event} (hlog : m'.log = e :: m.log)
    (he : ∀ es, LeavesOpen bs es → LeavesOpen bs' (es ++ [e])) (hdepth : m'.env.depth = 1 + openScopes bs') :
    Marked log bs' m' := by
  obtain ⟨es, hes, hopened⟩ := h.events
  refine ⟨⟨es ++ [e], ?_, he es hopened⟩, hdepth⟩
  rw [hlog, hes, List.reverse_append]
  rfl

theorem evaluated (h : Marked log bs m) {e : Expr} {r : Outcome Value}
    (heval : m.eval names e = (r, m')) : Marked log bs m' := by
  obtain ⟨heap, rfl⟩ := Machine.eq_of_eval heval
  exact h.finish rfl rfl

theorem tested (h : Marked log bs m) {operation : Operation} {e : Expr} {r : Outcome Bool}
    (htest : m.test names operation e = (r, m')) : Marked log bs m' := by
  obtain ⟨heap, rfl⟩ := Machine.eq_of_test htest
  exact h.finish rfl rfl

theorem stored (h : Marked log bs m) {x : Name} {v : Value} {r : Outcome Unit}
    (hstore : m.store names x v = (r, m')) : Marked log bs m' := by
  obtain ⟨-, rfl⟩ := Machine.eq_of_store hstore
  exact h.finish rfl (Environment.depth_store ..)

theorem declared (h : Marked log bs m) {x : Name} {r : Outcome Unit}
    (hdeclare : m.declare names x = (r, m')) : Marked log bs m' := by
  obtain ⟨-, rfl⟩ := Machine.eq_of_declare hdeclare
  exact h.finish rfl (Environment.depth_declare ..)

/-- **An event that is no bracket** leaves the same brackets open. -/
theorem note (h : Marked log bs m) {e : Event} (he : ¬ e.IsBracket) : Marked log bs (m.note e) :=
  h.extend rfl (fun _ hes => hes.append (.other he .nil)) h.depth

/-- **A scope begins**, in a frame with any parent. -/
theorem opened (h : Marked log bs m) (parent : FrameId) (hlog : m'.log =
    .beginScope (m.env.opened parent).depth :: m.log) (henv : m'.env = m.env.opened parent) :
    Marked log (.scope :: bs) m' := by
  have hdepth : (m.env.opened parent).depth = 1 + openScopes (.scope :: bs) := by
    -- The event gives the depth after the scope has begun.
    calc (m.env.opened parent).depth = m.env.depth + 1 := Array.size_push _
      _ = 1 + openScopes bs + 1 := by rw [h.depth]
      _ = 1 + openScopes (.scope :: bs) := Nat.add_assoc ..
  rw [hdepth] at hlog
  exact h.extend hlog (fun _ hes => hes.begin .scope) (henv ▸ hdepth)

/-- **A block** begins a scope in the innermost frame. -/
theorem enterScope (h : Marked log bs m) : Marked log (.scope :: bs) m.enterScope :=
  h.opened m.env.current rfl rfl

/-- **A scope ends.** It is not that of the whole program, as one more is open. -/
theorem leaveScope (h : Marked log (.scope :: bs) m) : Marked log bs m.leaveScope := by
  -- The frame of the program is below the one that ends, so there is one to go back to.
  have hopen : m.env.live.size = 1 + (openScopes bs + 1) := h.depth
  have hdepth : m.env.endScope.depth = 1 + openScopes bs := by
    rw [Environment.endScope, if_pos (by omega)]
    show m.env.live.pop.size = 1 + openScopes bs
    rw [Array.size_pop, hopen]
    rfl
  have hlog : m.leaveScope.log = .endScope m.env.endScope.depth :: m.log := rfl
  rw [hdepth] at hlog
  exact h.extend hlog (fun _ hes => hes.finish) hdepth

/-- **A call** enters its span. -/
theorem enterCall (h : Marked log bs m) : Marked log (.call :: bs) (m.note .enterCall) :=
  h.extend rfl (fun _ hes => hes.begin .call) h.depth

/-- **A call** leaves its span, with its scope already closed. -/
theorem exitCall (h : Marked log (.call :: bs) m) (hlog : m'.log = .exitCall :: m.log)
    (henv : m'.env = m.env) : Marked log bs m' :=
  h.extend hlog (fun _ hes => hes.finish) (henv ▸ h.depth)

end Marked

/-! ### Steps -/

/-- Evaluating and storing note nothing. -/
theorem Machine.Stores.marked {x : Name} {e : Expr} (h : m.Stores names x e signal m')
    (hm : Marked log bs m) : Marked log bs m' := by
  cases h with
  | unevaluated heval => exact hm.evaluated heval
  | unstored heval hstore => exact (hm.evaluated heval).stored hstore
  | stored heval hstore => exact (hm.evaluated heval).stored hstore

/-- **The arms of an `if`** leave the end of a scope to be run if they have begun one. -/
theorem Arms.Leaves.marked {arms : Arms} (h : arms.Leaves names m signal ts m')
    (hm : Marked log (brackets k) m) : Marked log (brackets (ts ++ k)) m' := by
  induction h with
  | done => exact hm
  | otherwise => exact hm.enterScope
  | untested htest => exact hm.tested htest
  | holds htest => exact (hm.tested htest).enterScope
  | fails htest _ ih => exact ih (hm.tested htest)

/-- **A call** whose span was entered leaves it at once, or has its scope inside. -/
theorem Machine.Invokes.marked {name : String} {sub : Option Subroutine}
    (h : m.Invokes name sub signal ts m') (hm : Marked log (.call :: brackets k) m) :
    Marked log (brackets (ts ++ k)) m' := by
  cases h with
  | undefined => exact hm.exitCall rfl rfl
  | limited => exact hm.exitCall rfl rfl
  -- The frame around the subroutine is not live, and the span is left without a scope.
  | unscoped _ hscope =>
    obtain ⟨-, rfl⟩ := eq_of_enterScopeIn_error hscope
    exact hm.exitCall rfl rfl
  | @entered sub m₁ _ hscope =>
    obtain ⟨-, rfl⟩ := eq_of_enterScopeIn hscope
    exact hm.opened sub.scope rfl rfl

/-- **A statement** begins what it leaves tasks to end. -/
theorem Stmt.Leaves.marked {s : Stmt} (h : s.Leaves names m signal ts m')
    (hm : Marked log (brackets k) m) : Marked log (brackets (ts ++ k)) m' := by
  cases h with
  | assign _ hstores => exact hstores.marked hm
  | undeclared hdeclare => exact hm.declared hdeclare
  | declare hdeclare hstores => exact hstores.marked (hm.declared hdeclare)
  | ifElse harms => exact harms.marked hm
  | repeatTimes heval => exact (hm.evaluated heval).note not_false
  -- A definition notes one event, which is no bracket.
  | @sub x body name =>
    have hdefined : Marked log (brackets k) (m.note (.defineSubroutine name)) := hm.note not_false
    exact hdefined.finish rfl rfl
  -- A call notes its name and then enters its span.
  | @call x name _ _ _ _ hinvokes =>
    have hcalled : Marked log (brackets k) (m.note (.callSubroutine name)) := hm.note not_false
    exact hinvokes.marked hcalled.enterCall
  | print heval => exact (hm.evaluated heval).finish rfl rfl
  | unevaluated heval | unprinted heval => exact hm.evaluated heval
  | uncounted heval | countless heval => exact hm.evaluated heval
  | assignUnfound | assignUndeclared | whileDo | subUnnamed | subDefined | callUnnamed => exact hm
  | exit | breakLoop => exact hm

/-- **A step** keeps the brackets that the tasks close open, and no others. -/
theorem Task.Leaves.marked {task : Task} (h : task.Leaves names m signal signal' ts m')
    (hm : Marked log (brackets (task :: k)) m) : Marked log (brackets (ts ++ k)) m' := by
  cases h with
  | @start s rest signal ts _ hs =>
    -- The rest of the block closes no bracket, so the statement begins with the same ones open.
    have hrest : Marked log (brackets (.run rest :: k)) m := hm
    rw [List.append_assoc, List.singleton_append]
    exact hs.marked hrest
  | leaveScope => exact hm.leaveScope
  | leaveCall => exact hm.exitCall rfl rfl
  | whileUntested htest | whileOver htest => exact hm.tested htest
  | whileAgain htest => exact Marked.enterScope (hm.tested htest)
  | repeatAgain => exact hm.enterScope
  | ended | dropped | whileBreak | whileLeft | repeatOver | repeatBreak | repeatLeft => exact hm

/-- **At every point of a run** the brackets that are open are those that the tasks close. -/
theorem marked_run (names : Interner) (p : Program) (printer : Printer) (maxCalls : Nat)
    (log : List Event) (fuel : Nat) :
    let r := (({ Machine.initial printer maxCalls with log := log } : Machine).load p).run names fuel
    Marked log (brackets r.control) r.machine := by
  intro r
  -- The machine has noted nothing since the log was `log`.
  have hstart : Marked log [] { Machine.initial printer maxCalls with log := log } :=
    ⟨⟨[], rfl, .nil .nil⟩, rfl⟩
  exact Config.run_preserves names (P := fun _ k m => Marked log (brackets k) m)
    (fun _ _ _ _ _ _ _ hm hstep => hstep.marked hm) fuel
    (c := Machine.load { Machine.initial printer maxCalls with log := log } p) hstart

/-! ### After an error -/

/-- **A run that was stopped** only ends what is open. -/
theorem Config.log_run_stopped {fuel : Nat} {s : Stop} {result : Outcome Status}
    (hrun : Config.run names fuel ⟨.error s, k, m⟩ = .finished result m') :
    ∃ ends : List Event, m'.log = ends.reverse ++ m.log ∧ ∀ e ∈ ends, e.IsEnd := by
  induction k generalizing fuel m with
  | nil =>
    -- Nothing is left to end.
    rw [Config.run_nil] at hrun
    cases hrun
    exact ⟨[], rfl, fun _ he => absurd he List.not_mem_nil⟩
  | cons task k ih =>
    cases fuel with
    | zero => cases hrun
    | succ fuel =>
      rw [Config.run_succ_cons] at hrun
      -- Only the end of a scope or of a call notes anything.
      have hended (e : Event) (he : e.IsEnd) (m₁ : Machine) (hlog : m₁.log = e :: m.log)
          (hrest : Config.run names fuel ⟨.error s, k, m₁⟩ = .finished result m') :
          ∃ ends : List Event, m'.log = ends.reverse ++ m.log ∧ ∀ e ∈ ends, e.IsEnd := by
        obtain ⟨ends, hends, hall⟩ := ih hrest
        refine ⟨e :: ends, ?_, List.forall_mem_cons.mpr ⟨he, hall⟩⟩
        rw [hends, hlog, List.reverse_cons, List.append_assoc, List.singleton_append]
      cases task with
      | run rest => exact ih hrun
      | leaveScope => exact hended (.endScope m.env.endScope.depth) trivial m.leaveScope rfl hrun
      | leaveCall => exact hended .exitCall trivial m.leaveCall rfl hrun
      | whileDo cond body => exact ih hrun
      | repeatTimes left body => exact ih hrun

/-- **A call that is refused**: there is no subroutine of that name, or as many calls are active as may
be. -/
def Machine.Refused (m : Machine) (x : Name) : Prop :=
  m.subs.lookup x = none ∨ m.maxCalls ≤ m.calls

/-- The call that is to begin next at some point of a run, if it is one, with the machine then. -/
def Progress.call? : Progress → Option (Name × Machine)
  | .running ⟨.ok .ok, .run (.call x :: _) :: _, m⟩ => some (x, m)
  | _ => none

/-- The call stands first in what is left of a block. -/
theorem Progress.exists_of_call? {r : Progress} {x : Name} (h : r.call? = some (x, m)) :
    ∃ rest k, r = .running ⟨.ok .ok, .run (.call x :: rest) :: k, m⟩ := by
  unfold call? at h
  split at h
  · cases h
    exact ⟨_, _, rfl⟩
  · cases h

/-- **A refused call** enters its span and leaves it, and the run is stopped. -/
theorem step_call_refused {x : Name} {name : String} (rest : List Stmt)
    (hname : names.resolve x = .ok name) (hrefused : m.Refused x) :
    ∃ s m₁, (Task.run (.call x :: rest)).step names (.ok .ok) k m = ⟨.error s, .run rest :: k, m₁⟩ ∧
      (s = .error (.undefinedSubroutine name) ∨ s = .limit m.maxCalls) ∧
      m₁.log = .exitCall :: .enterCall :: .callSubroutine name :: m.log := by
  have hstep : (Task.run (.call x :: rest)).step names (.ok .ok) k m =
      Machine.call names x (.run rest :: k) m := rfl
  -- The step is the call itself, which begins by looking up the name.
  rw [hstep, Machine.call, hname]
  dsimp only
  cases hsub : m.subs.lookup x with
  | none => exact ⟨_, _, rfl, .inl rfl, rfl⟩
  | some sub =>
    -- There is a subroutine, so the limit is what refuses the call.
    obtain hnone | hlimit := hrefused
    · cases hsub.symm.trans hnone
    · refine ⟨_, _, if_pos hlimit, .inr rfl, rfl⟩

/-- What comes after the call when it is the next statement at some point of a run. -/
theorem Config.run_call_refused {n fuel : Nat} {c : Config} {x : Name} {rest : List Stmt}
    {result : Outcome Status} (hpoint : c.run names n = .running ⟨.ok .ok, .run (.call x :: rest) :: k, m⟩)
    (hrefused : m.Refused x) (hrun : c.run names fuel = .finished result m')
    (hfaultless : Faultless result) :
    ∃ name, names.resolve x = .ok name ∧
      (result = .error (.error (.undefinedSubroutine name)) ∨ result = .error (.limit m.maxCalls)) ∧
      ∃ ends : List Event, (∀ e ∈ ends, e.IsEnd) ∧
        m'.log = ends.reverse ++ .exitCall :: .enterCall :: .callSubroutine name :: m.log := by
  obtain ⟨result₁, m₁, hover⟩ | ⟨c', hc', hleads⟩ := c.run_cases names n
  -- The run is not over at this point, so its steps have led there.
  · cases hpoint.symm.trans (hover 0)
  obtain rfl : ⟨.ok .ok, .run (.call x :: rest) :: k, m⟩ = c' :=
    Progress.running.inj (hpoint.symm.trans hc')
  -- The run ends after this point, as it stands there with a task left.
  obtain ⟨left, rfl⟩ : ∃ left, fuel = n + (left + 1) := by
    obtain hle | hlt := Nat.lt_or_ge n fuel
    · exact ⟨fuel - n - 1, by omega⟩
    · obtain ⟨more, rfl⟩ := Nat.exists_eq_add_of_le hlt
      cases hpoint.symm.trans (Config.run_finished hrun more)
  rw [hleads, Config.run_succ_cons] at hrun
  cases hname : names.resolve x with
  | error s =>
    have hstep : (Task.run (.call x :: rest)).step names (.ok .ok) k m =
        ⟨.error s, .run rest :: k, m⟩ := by
      show Machine.call names x (.run rest :: k) m = _
      rw [Machine.call, hname]
      rfl
    rw [hstep] at hrun
    obtain ⟨rfl, -⟩ := Config.run_stopped names hrun
    -- A name without a text is a fault, which the run does not end with.
    unfold Interner.resolve Outcome.ofOption at hname
    split at hname
    · cases hname
    · cases hname
      exact absurd rfl (hfaultless _)
  | ok name =>
    -- The call is refused in one step, and then ends are all that the run adds.
    obtain ⟨s, m₁, hstep, hs, hlog⟩ := step_call_refused (k := k) rest hname hrefused
    rw [hstep] at hrun
    obtain ⟨rfl, -⟩ := Config.run_stopped names hrun
    obtain ⟨ends, hends, hall⟩ := Config.log_run_stopped hrun
    rw [hlog] at hends
    exact ⟨name, rfl, hs.imp (congrArg _) (congrArg _), ends, hall, hends⟩

/-! ### Sources -/

/-- What a report adds to the log of the machine is no bracket, and nothing after an error. -/
theorem Report.log_ofRun (result : Outcome Status) (m : Machine) :
    ∃ last : List Event, (Report.ofRun result m).log = last.reverse ++ m.log ∧ Bracketed 0 last ∧
      ∀ s, result = .error s → last = [] := by
  cases result with
  | error s => exact ⟨[], rfl, .nil, fun _ _ => rfl⟩
  | ok status =>
    -- A program that halts notes this first, and that it has finished comes last in any case.
    have hfinished : Bracketed 0 [.runFinished status] := .other not_false .nil
    by_cases hstatus : status = .ok
    · refine ⟨[.runFinished status], ?_, hfinished, nofun⟩
      show .runFinished status :: (m.halt status).log = _
      rw [Machine.halt, if_pos hstatus]
      rfl
    · refine ⟨[.programHalted status, .runFinished status], ?_, .other not_false hfinished, nofun⟩
      show .runFinished status :: (m.halt status).log = _
      rw [Machine.halt, if_neg hstatus]
      rfl

/-- **The log of a run is well bracketed.** Of every source that is read, and however its run ends, the
events of the run are well bracketed: each scope and each call has a beginning and a later end, these nest
properly, and each event of a scope gives the number of scopes that are open after it, and one more.

If at some point of the run a call is to begin that is refused, its span is entered and left with nothing
in between, the run ends with the error, and all that follows in the log are ends. -/
theorem runs_well_bracketed {source : String} {options : Options} {printer : Printer}
    {loaded : Loaded} {log : List Event}
    (hload : load source options printer = (.ok loaded, log)) {fuel : Nat} {result : Outcome Status}
    {m : Machine} (hrun : loaded.config.run loaded.names fuel = .finished result m) :
    ∃ events, (Report.ofRun result m).log = events.reverse ++ log ∧ Bracketed 0 events ∧
      ∀ n x rest k m₁,
        loaded.config.run loaded.names n = .running ⟨.ok .ok, .run (.call x :: rest) :: k, m₁⟩ →
        m₁.Refused x →
          ∃ name before ends, loaded.names.resolve x = .ok name ∧
            (result = .error (.error (.undefinedSubroutine name)) ∨
              result = .error (.limit options.maxCalls)) ∧
            m₁.log = before.reverse ++ log ∧
            events = before ++ .callSubroutine name :: .enterCall :: .exitCall :: ends ∧
            ∀ e ∈ ends, e.IsEnd := by
  obtain ⟨p, hp, hconfig⟩ := exists_of_load hload
  have hmarked := marked_run loaded.names p printer options.maxCalls log
  have hstart := Machine.SourceSession.start .initial printer options.maxCalls log
  have hfaultless := (hstart.alike_run hp fuel).faultless
  rw [← hconfig] at hmarked hfaultless
  rw [hrun] at hfaultless
  -- When the run is over no tasks are left, and so no brackets are open.
  have hend : Marked log [] m := by
    have hlast := hmarked fuel
    rw [hrun] at hlast
    exact hlast
  obtain ⟨es, hes, hopened⟩ := hend.events
  have hbracketed : Bracketed 0 es := by
    cases hopened with
    | nil h => exact h
  obtain ⟨last, hlog, hlast, hnone⟩ := Report.log_ofRun result m
  refine ⟨es ++ last, ?_, hbracketed.append hlast, fun n x rest k m₁ hpoint hrefused => ?_⟩
  · rw [hlog, hes, List.reverse_append, List.append_assoc]
  obtain ⟨name, hname, hresult, ends, hends, hended⟩ :=
    Config.run_call_refused hpoint hrefused hrun hfaultless
  -- Before the call some brackets may be open, and these are closed by the ends.
  have hbefore : Marked log (brackets (.run (.call x :: rest) :: k)) m₁ := by
    have hmarked := hmarked n
    rw [hpoint] at hmarked
    exact hmarked
  -- The limit of the machine is the one of the options, all along the run.
  have hlimit : m₁.maxCalls = options.maxCalls := by
    have hfollows := (loaded.config.follows_run loaded.names n).limit
    rw [hpoint, hconfig] at hfollows
    exact hfollows
  obtain ⟨before, hm₁, -⟩ := hbefore.events
  -- The run was stopped by an error, so nothing is added at its end.
  obtain rfl : last = [] := by
    obtain hundefined | hlimited := hresult
    · exact hnone _ hundefined
    · exact hnone _ hlimited
  refine ⟨name, before, ends, hname, hlimit ▸ hresult, hm₁, ?_, hends⟩
  -- Both sides are what the log has more at the end than at the start.
  rw [List.append_nil, ← List.reverse_inj, ← List.append_left_inj log, ← hes, hended, hm₁]
  simp only [List.reverse_append, List.reverse_cons, List.append_assoc, List.cons_append,
    List.nil_append]

/-- A call that is refused in a loop that runs in a call. -/
theorem runs_well_bracketed_undefined :
    let source := "sub f repeat 2 times call g endrepeat endsub call f"
    ∃ loaded log result m name before ends, load source .default .silent = (.ok loaded, log) ∧
      loaded.config.run loaded.names 12 = .finished result m ∧
      (Report.ofRun result m).log =
        (before ++ .callSubroutine name :: .enterCall :: .exitCall :: ends).reverse ++ log ∧
      Bracketed 0 (before ++ .callSubroutine name :: .enterCall :: .exitCall :: ends) ∧
      ∀ e ∈ ends, e.IsEnd := by
  intro source
  -- The call that is refused is the next step after four, and the run is over after twelve.
  have hsource : ((load source .default .silent).1.toOption.map fun loaded =>
      ((loaded.config.run loaded.names 4).call?.map fun call => (call.2.subs.lookup call.1).isNone,
        (loaded.config.run loaded.names 12).result?.isSome)) = some (some true, true) := by
    decide +kernel
  clear_value source
  cases hload : load source .default .silent with | mk read log =>
  rw [hload] at hsource
  cases read with
  | error e => cases hsource
  | ok loaded =>
    obtain ⟨hcall, hended⟩ := Prod.mk.inj (Option.some.inj hsource)
    obtain ⟨⟨x, m₁⟩, hpoint, hlookup⟩ := Option.map_eq_some_iff.mp hcall
    obtain ⟨rest, k, hpoint⟩ := Progress.exists_of_call? hpoint
    obtain ⟨result, hresult⟩ := Option.isSome_iff_exists.mp hended
    obtain ⟨m, hrun⟩ := Progress.exists_of_result? hresult
    obtain ⟨events, hlog, hbracketed, hcalls⟩ := runs_well_bracketed hload hrun
    have hrefused : m₁.Refused x := .inl (Option.isNone_iff_eq_none.mp hlookup)
    obtain ⟨name, before, ends, -, -, -, rfl, hends⟩ := hcalls 4 x rest k m₁ hpoint hrefused
    exact ⟨loaded, log, result, m, name, before, ends, rfl, hrun, hlog, hbracketed, hends⟩

end Silly
