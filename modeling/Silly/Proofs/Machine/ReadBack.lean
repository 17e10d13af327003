import Silly.Proofs.Display.Value
import Silly.Proofs.Machine.Isolation
import Silly.Proofs.Machine.Session

/-!
# What a machine holds can be read back

At every moment of a run, no string in the heap holds a quote or a line break, and each value that a
variable is bound to or that an expression comes to has a text that is read back as that value
(`values_read_back`). So no two values that a machine holds have the same text.

Only evaluating changes the heap, and only expressions of the source are evaluated. So the invariant of
a run says three things: the heap is clean, what is left to do is well formed, and so are the bodies of
the subroutines (`Config.Clean`). A step keeps it (`Task.clean_step`), and so do the names that are added
when the next source of a session is read.
-/

namespace Silly

variable {names names' : Interner}

/-! ### The invariant -/

/-- **A task whose statements are well formed.** -/
def Task.WellFormed (names : Interner) : Task → Prop
  | .run rest => Program.WellFormed names rest
  | .leaveScope | .leaveCall => True
  | .whileDo cond body => cond.WellFormed names ∧ blockWellFormed names body
  | .repeatTimes _ body => blockWellFormed names body

/-- **A machine with a clean heap**, in which the bodies of the subroutines are well formed. -/
structure Machine.Clean (names : Interner) (m : Machine) : Prop where
  heap : m.heap.Clean
  subs : ∀ x sub, m.subs.lookup x = some sub → blockWellFormed names sub.body

/-- **A point with a clean heap**, at which everything that is left to run is well formed. -/
structure Config.Clean (names : Interner) (c : Config) : Prop where
  control : ∀ task ∈ c.control, task.WellFormed names
  machine : c.machine.Clean names

namespace Machine.Clean

variable {m : Machine}

theorem initial (names : Interner) (printer : Printer) (maxCalls : Nat) (log : List Event) :
    Clean names { Machine.initial printer maxCalls with log := log } :=
  ⟨Heap.clean_empty, nofun⟩

/-- **An evaluation** adds clean texts alone. -/
theorem eval (hm : m.Clean names) {e : Expr} (he : e.WellFormed names) :
    (m.eval names e).2.Clean names :=
  ⟨e.clean_eval hm.heap he, hm.subs⟩

/-- Opening a frame changes neither the heap nor the subroutines. -/
theorem enterScopeIn (hm : m.Clean names) (parent : FrameId) :
    (m.enterScopeIn parent).2.Clean names := by
  obtain ⟨heap, env, subs, printer, calls, maxCalls, log⟩ := m
  simp only [Machine.enterScopeIn]
  obtain ⟨r, env'⟩ := env.beginScopeIn parent
  cases r <;> exact ⟨hm.heap, hm.subs⟩

/-- **A definition** adds a body that is well formed. -/
theorem addSub (hm : m.Clean names) (x : Name) {body : Block} (scope : FrameId)
    (hbody : blockWellFormed names body) : (m.addSub x ⟨body, scope⟩).Clean names := by
  refine ⟨hm.heap, fun y sub hsub => ?_⟩
  obtain rfl | hold := Machine.eq_or_lookup_of_addSub hsub
  · exact hbody
  · exact hm.subs y sub hold

theorem of_extends (he : names.Extends names') (hm : m.Clean names) : m.Clean names' :=
  ⟨hm.heap, fun x sub hsub => blockWellFormed_of_extends he (hm.subs x sub hsub)⟩

end Machine.Clean

/-! ### Steps -/

section Step

variable {m : Machine} {k : List Task}

/-- One more task. -/
theorem wellFormed_cons {task : Task} (ht : task.WellFormed names)
    (hk : ∀ task ∈ k, task.WellFormed names) : ∀ t ∈ task :: k, t.WellFormed names :=
  List.forall_mem_cons.mpr ⟨ht, hk⟩

variable (hk : ∀ task ∈ k, task.WellFormed names) (hm : m.Clean names)

include hk hm

theorem clean_enterBlock {body : Block} (hbody : blockWellFormed names body) :
    (enterBlock body k m).Clean names where
  control := wellFormed_cons (wellFormed_of_block hbody) (wellFormed_cons trivial hk)
  machine := ⟨hm.heap, hm.subs⟩

/-- **Evaluating and storing.** -/
theorem clean_evalStore (x : Name) {e : Expr} (he : e.WellFormed names) :
    (Machine.evalStore names x e k m).Clean names := by
  have heval := hm.eval he
  unfold Machine.evalStore
  revert heval
  obtain ⟨s | v, m₁⟩ := m.eval names e
  · exact fun heval => ⟨hk, heval⟩
  · intro heval
    -- Storing the value changes neither the heap nor the subroutines.
    have hstore : (m₁.store names x v).2.Clean names := ⟨heval.heap, heval.subs⟩
    dsimp only
    revert hstore
    obtain ⟨s | ⟨⟩, m₂⟩ := m₁.store names x v
    · exact fun hstore => ⟨hk, hstore⟩
    · exact fun hstore => ⟨hk, hstore⟩

/-- **An assignment.** -/
theorem clean_assign (x : Name) {e : Expr} (he : e.WellFormed names) :
    (Machine.assign names x e k m).Clean names := by
  unfold Machine.assign
  -- Where the variable cannot be assigned to, nothing changes.
  split
  · exact ⟨hk, hm⟩
  · exact ⟨hk, hm⟩
  · exact clean_evalStore hk hm x he

/-- **A declaration** with its value. -/
theorem clean_declareStore (x : Name) {e : Expr} (he : e.WellFormed names) :
    (Machine.declareStore names x e k m).Clean names := by
  -- A variable that is declared has no value, so nothing is added to the heap.
  have hdeclare : (m.declare names x).2.Clean names := ⟨hm.heap, hm.subs⟩
  unfold Machine.declareStore
  revert hdeclare
  obtain ⟨s | ⟨⟩, m₁⟩ := m.declare names x
  · exact fun hdeclare => ⟨hk, hdeclare⟩
  · exact fun hdeclare => clean_evalStore hk hdeclare x he

/-- **A `print`** makes a line, which is not put into the heap. -/
theorem clean_printValue {e : Expr} (he : e.WellFormed names) :
    (Machine.printValue names e k m).Clean names := by
  have heval := hm.eval he
  unfold Machine.printValue
  revert heval
  obtain ⟨s | v, m₁⟩ := m.eval names e
  · exact fun heval => ⟨hk, heval⟩
  · intro heval
    dsimp only
    split
    · exact ⟨hk, heval⟩
    · exact ⟨hk, heval.heap, heval.subs⟩

/-- **A `repeat`** leaves its body, which is well formed, to be run. -/
theorem clean_beginRepeat {count : Expr} (hcount : count.WellFormed names) {body : Block}
    (hbody : blockWellFormed names body) :
    (Machine.beginRepeat names count body k m).Clean names := by
  have heval := hm.eval hcount
  unfold Machine.beginRepeat
  revert heval
  obtain ⟨s | v, m₁⟩ := m.eval names count
  · exact fun heval => ⟨hk, heval⟩
  · intro heval
    dsimp only
    split
    · exact ⟨hk, heval⟩
    · exact ⟨wellFormed_cons hbody hk, heval.heap, heval.subs⟩

/-- **A definition** is refused, or it adds its body. -/
theorem clean_define (x : Name) {body : Block} (hbody : blockWellFormed names body) :
    (Machine.define names x body k m).Clean names := by
  unfold Machine.define
  split
  · exact ⟨hk, hm⟩
  · split
    · exact ⟨hk, hm⟩
    · next name _ _ =>
      have hnoted : (m.note (.defineSubroutine name)).Clean names := ⟨hm.heap, hm.subs⟩
      exact ⟨hk, hnoted.addSub x m.env.current hbody⟩

/-- The body of a subroutine is run if its frame can be opened. -/
theorem clean_invoke (name : String) {sub : Option Subroutine}
    (hsub : ∀ s, sub = some s → blockWellFormed names s.body) :
    (Machine.invoke name k m sub).Clean names := by
  cases sub with
  | none => exact ⟨hk, hm.heap, hm.subs⟩
  | some sub =>
    have hscope := hm.enterScopeIn sub.scope
    unfold Machine.invoke
    dsimp only
    -- At the limit nothing is opened. Below it, the body may be run, with the ends of its scope and its
    -- call.
    by_cases hdepth : m.maxCalls ≤ m.calls
    · rw [if_pos hdepth]
      exact ⟨hk, hm.heap, hm.subs⟩
    · rw [if_neg hdepth]
      revert hscope
      obtain ⟨s | ⟨⟩, m₁⟩ := m.enterScopeIn sub.scope
      · exact fun hscope => ⟨hk, hscope.heap, hscope.subs⟩
      · intro hentered
        have hbody : (Task.run sub.body).WellFormed names := wellFormed_of_block (hsub sub rfl)
        have hcall : Task.WellFormed names .leaveCall := trivial
        have hscope : Task.WellFormed names .leaveScope := trivial
        have hends := wellFormed_cons hscope (wellFormed_cons hcall hk)
        exact ⟨wellFormed_cons hbody hends, hentered.heap, hentered.subs⟩

/-- **A call** runs what the table holds, and all in it is well formed. -/
theorem clean_call (x : Name) : (Machine.call names x k m).Clean names := by
  unfold Machine.call
  cases names.resolve x with
  | error s => exact ⟨hk, hm⟩
  | ok name =>
    have hcalled : ((m.note (.callSubroutine name)).note .enterCall).Clean names :=
      ⟨hm.heap, hm.subs⟩
    exact clean_invoke hk hcalled name (hm.subs x)

omit hm in
/-- **A chain of arms** evaluates its conditions and enters a body at most. -/
theorem Arms.clean_start : ∀ (arms : Arms) {m : Machine}, arms.WellFormed names →
    m.Clean names → (arms.start names k m).Clean names
  | .done, _, _, hm => ⟨hk, hm⟩
  | .otherwise _, _, hbody, hm => clean_enterBlock hk hm hbody
  | .arm cond body rest, m, harms, hm => by
    have htest : (m.test names .ifCondition cond).2.Clean names := hm.eval harms.1
    rw [Arms.start]
    revert htest
    -- In each case what was evaluated has left the heap clean.
    obtain ⟨s | (_ | _), m₁⟩ := m.test names .ifCondition cond
    · exact fun htest => ⟨hk, htest⟩
    · exact fun htest => rest.clean_start harms.2.2 htest
    · exact fun htest => clean_enterBlock hk htest harms.2.1

/-- **A statement** keeps the heap clean. -/
theorem Stmt.clean_start {s : Stmt} (hs : s.TopWellFormed names) :
    (s.start names k m).Clean names := by
  -- A statement at the top level may be a definition, and all others are what they are in blocks.
  cases s with
  | assign x e => exact clean_assign hk hm x hs.2
  | declare x e => exact clean_declareStore hk hm x hs.2
  | print e => exact clean_printValue hk hm hs
  | ifElse arms => exact arms.clean_start hk hs.2 hm
  | whileDo cond body => exact ⟨wellFormed_cons hs hk, hm⟩
  | repeatTimes count body => exact clean_beginRepeat hk hm hs.1 hs.2
  | sub x body => exact clean_define hk hm x hs.2
  | call x => exact clean_call hk hm x
  | exit => exact ⟨hk, hm⟩
  | breakLoop => exact ⟨hk, hm⟩

end Step

/-- **A step** keeps the heap clean, and leaves what is well formed. -/
theorem Task.clean_step {task : Task} {signal : Outcome Status} {k : List Task} {m : Machine}
    (h : Config.Clean names ⟨signal, task :: k, m⟩) : (task.step names signal k m).Clean names := by
  obtain ⟨htasks, hm⟩ := h
  obtain ⟨htask, hk⟩ := List.forall_mem_cons.mp htasks
  -- A task that is dropped leaves the rest as it was.
  have hdropped (signal' : Outcome Status) : Config.Clean names ⟨signal', k, m⟩ := ⟨hk, hm⟩
  cases task with
  | run rest =>
    obtain s | (_ | _ | _) := signal
    case ok.ok =>
      cases rest with
      | nil => exact hdropped _
      | cons s rest =>
        obtain ⟨hs, hrest⟩ := List.forall_mem_cons.mp htask
        have hrun : (Task.run rest).WellFormed names := hrest
        exact Stmt.clean_start (wellFormed_cons hrun hk) hm hs
    all_goals exact hdropped _
  | leaveScope => exact ⟨hk, hm.heap, hm.subs⟩
  | leaveCall => exact ⟨hk, hm.heap, hm.subs⟩
  | whileDo cond body =>
    obtain s | (_ | _ | _) := signal
    case ok.ok =>
      have htest : (m.test names .whileCondition cond).2.Clean names := hm.eval htask.1
      simp only [Task.step]
      revert htest
      obtain ⟨s | (_ | _), m₁⟩ := m.test names .whileCondition cond
      · exact fun htest => ⟨hk, htest⟩
      · exact fun htest => ⟨hk, htest⟩
      -- The loop stands behind its body again, as it was.
      · exact fun htest => clean_enterBlock (wellFormed_cons htask hk) htest htask.2
    all_goals exact hdropped _
  | repeatTimes left body =>
    obtain s | (_ | _ | _) := signal
    case ok.ok =>
      cases left with
      | zero => exact hdropped _
      | succ left =>
        have hloop : (Task.repeatTimes left body).WellFormed names := htask
        exact clean_enterBlock (wellFormed_cons hloop hk) hm htask
    all_goals exact hdropped _

/-! ### Runs -/

/-- **At every point of a run** the heap is clean. -/
theorem Config.Clean.run {c : Config} (hc : c.Clean names) (fuel : Nat) :
    (c.run names fuel).machine.Clean names := by
  -- The points of a run are clean one after the other.
  obtain ⟨c', hrun, hc'⟩ | ⟨result, m, hrun, hm⟩ :=
    Config.run_invariant names (fun _ _ _ _ h => Task.clean_step h) fuel hc
  · rw [hrun]
    exact hc'.machine
  · rw [hrun]
    exact hm.machine

namespace Machine

variable {m : Machine}

/-- **A program that is loaded** into a clean machine keeps it clean. -/
theorem Clean.run_load (hm : m.Clean names) {p : Program} (hp : p.WellFormed names) (fuel : Nat) :
    ((m.load p).run names fuel).machine.Clean names := by
  have hload : (m.load p).Clean names :=
    ⟨wellFormed_cons hp fun _ ht => absurd ht List.not_mem_nil, hm⟩
  exact hload.run fuel

/-- **Between sources** the heap is clean. -/
theorem SourceSession.clean (hm : SourceSession names m) : m.Clean names := by
  -- By the way in which the session has come about: its start, further names, and each run.
  induction hm with
  | start names printer maxCalls log => exact .initial names printer maxCalls log
  | extend _ he ih => exact ih.of_extends he
  | @run names names' m m' source p fuel result _ hp hrun ih =>
    obtain ⟨m₁, hload, rfl⟩ := (run_eq_finished_iff names').mp hrun
    have hend := (ih.of_extends (extends_of_parse hp)).run_load (wellFormed_of_parse hp) fuel
    rw [hload] at hend
    -- A line in the log is all that comes after the last statement.
    obtain hended | ⟨status, hended⟩ := m₁.ended_cases result
    · rw [hended]
      exact hend
    · rw [hended]
      exact ⟨hend.heap, hend.subs⟩

/-- **At every point that a session comes to** the heap is clean. -/
theorem Reached.clean (hm : Reached names m) : m.Clean names := by
  obtain ⟨names₀, m₀, source, p, fuel, hsession, hp, rfl⟩ := hm
  exact (hsession.clean.of_extends (extends_of_parse hp)).run_load (wellFormed_of_parse hp) fuel

theorem Reached.valid (hm : Reached names m) : m.Valid := by
  obtain ⟨base, d, halike⟩ := hm.exists_alike
  exact halike.valid

/-! ### Moments of a run -/

/-- **A machine at some moment of a run**: at a point that a run comes to, or within a statement that
begins there, when variables were declared and expressions evaluated. -/
inductive Visited (names : Interner) : Machine → Prop
  | reached {m : Machine} : Reached names m → Visited names m
  | declare {m : Machine} (x : Name) : Visited names m → Visited names (m.declare names x).2
  | eval {m : Machine} {e : Expr} : Visited names m → e.WellFormed names →
      Visited names (m.eval names e).2

/-- **A value that a machine holds**: a variable of some frame is bound to it, or an expression has just
come to it. -/
inductive Holds (names : Interner) : Machine → Value → Prop
  | bound {m : Machine} {f : Frame} {x : Name} {v : Value} : f ∈ m.env.frames →
      (x, some v) ∈ f.bindings → Holds names m v
  | computed {m m' : Machine} {e : Expr} {v : Value} : Visited names m → e.WellFormed names →
      m.eval names e = (.ok v, m') → Holds names m' v

/-- An evaluation keeps the handles in the frames valid. -/
theorem Valid.eval (hm : m.Valid) (names : Interner) (e : Expr) : (m.eval names e).2.Valid := by
  obtain ⟨s, m', heval, -, hm'⟩ | ⟨v, m', heval, -, hm', -⟩ := hm.eval_cases names e
  · rw [heval]
    exact hm'
  · rw [heval]
    exact hm'

/-- **At every moment** the handles in the frames are valid. -/
theorem Visited.valid (hm : Visited names m) : m.Valid := by
  induction hm with
  | reached hm => exact hm.valid
  | declare x _ ih => exact ih.declare names x
  | @eval m e _ _ ih => exact ih.eval names e

/-- **At every moment** the heap is clean. -/
theorem Visited.clean (hm : Visited names m) : m.Clean names := by
  induction hm with
  | reached hm => exact hm.clean
  | declare x _ ih => exact ⟨ih.heap, ih.subs⟩
  | eval _ he ih => exact ih.eval he

/-- The heap has given out the handles in every value that a machine holds. -/
theorem Holds.valid {v : Value} (hm : Visited names m) (hv : Holds names m v) :
    v.Valid m.heap := by
  cases hv with
  | bound hf hx => exact hm.valid _ hf _ _ hx
  | @computed m₀ _ e _ hm₀ he heval =>
    -- The value is what the evaluation has come to, and so its handles are valid.
    obtain ⟨s, m', heval', -⟩ | ⟨w, m', heval', -, -, hw⟩ := hm₀.valid.eval_cases names e
    · cases heval.symm.trans heval'
    · cases heval.symm.trans heval'
      exact hw

/-- **The values of a run can be read back.** At every moment of a run, no string in the heap holds a
quote or a line break. Each value that the machine holds has a text that is one expression with nothing
left over, whatever the table of names that it is read with, and evaluating that expression in the
machine comes to the value and changes nothing. So no two values that it holds have the same text. -/
theorem values_read_back (hm : Visited names m) :
    m.heap.Clean ∧
    (∀ v, Holds names m v → ∃ text, v.literal m.heap = .ok text ∧
      ∀ before, ∃ e after, parse ("print " ++ text) before = (.ok [.print e], after) ∧
        DerivesExpr after.nameOf (tokenize text before).1 e ∧ m.eval after e = (.ok v, m)) ∧
    ∀ v w, Holds names m v → Holds names m w → v.literal m.heap = w.literal m.heap → v = w := by
  have hclean := hm.clean.heap
  refine ⟨hclean, fun v hv => ?_, fun v w hv hw htext => ?_⟩
  -- The value has a text, and reading this text gives an expression for the value.
  · obtain ⟨text, hread⟩ := (hv.valid hm).exists_readBack hclean
    refine ⟨text, hread.literal, fun before => ?_⟩
    obtain ⟨e, after, hparse, hderives, heval⟩ := hread.reading before
    refine ⟨e, after, hparse, hderives, ?_⟩
    -- An evaluation hands on the heap alone, and this one hands on what it was given.
    simp only [Machine.eval, heval]
  -- Two values with the same text are what it is read back as.
  · exact (hv.valid hm).literal_injective hclean (hw.valid hm) htext

/-- A list of a joined string and the least integer, after the declaration that binds it. -/
theorem values_read_back_joined :
    let source := "var x gets [(\"a\" + \"b\") -9223372036854775808]"
    let names := (parse source .initial).2
    let v : Value := .list [.str ⟨2⟩, .int Int64.minValue]
    let text := "[\"ab\" -9223372036854775808]"
    ∃ m, Visited names m ∧ Holds names m v ∧ v.literal m.heap = .ok text ∧
      ∀ before, ∃ e after, parse ("print " ++ text) before = (.ok [.print e], after) ∧
        DerivesExpr after.nameOf (tokenize text before).1 e ∧ m.eval after e = (.ok v, m) := by
  intro source names v text
  let p := (parse source .initial).1.toOption.getD []
  let m := (((Machine.initial .silent 8).load p).run names 2).machine
  let x := names.nameOf "x"
  have hread : (parse source .initial).1.toOption.isSome = true := by decide +kernel
  have hlookup : (m.env.lookup x).toOption = some v := by decide +kernel
  have hliteral : (v.literal m.heap).toOption = some text := by decide +kernel
  have hx : names.IsIdentifier x := ⟨"x", by decide +kernel, by decide +kernel⟩
  -- What has been computed is kept, and the terms themselves are not looked at again.
  clear_value text v x
  have hparse : parse source .initial = (.ok p, names) := by
    have hok : (parse source .initial).1 = .ok p := by
      revert hread
      show (parse source .initial).1.toOption.isSome = true →
        (parse source .initial).1 = .ok ((parse source .initial).1.toOption.getD [])
      cases (parse source .initial).1 with
      | error e => exact fun h => by cases h
      | ok p => exact fun _ => rfl
    exact parse_eq_of_ok hok
  have hm : Visited names m :=
    .reached ⟨.initial, _, source, p, 2, .start .initial .silent 8 [], hparse, rfl⟩
  clear_value m
  have hv : Holds names m v := by
    refine .computed (m := m) (e := .var x) hm hx ?_
    -- The variable is bound to the value at this point.
    cases hget : m.env.lookup x with
    | error e =>
      rw [hget] at hlookup
      cases hlookup
    | ok w =>
      rw [hget] at hlookup
      cases hlookup
      simp only [Machine.eval, Expr.eval, hget, ScopeOutcome.outcome]
  obtain ⟨text', htext', hback⟩ := (values_read_back hm).2.1 v hv
  obtain rfl : text' = text := by
    rw [htext'] at hliteral
    exact Option.some.inj hliteral
  exact ⟨m, hm, hv, htext', hback⟩

end Machine

end Silly
