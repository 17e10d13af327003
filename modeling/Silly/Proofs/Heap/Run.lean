import Silly.Machine.Run
import Silly.Proofs.Heap.Eval

/-!
# Runs with and without a heap

The interpreter keeps the texts of strings in a heap and lets values hold handles. The reference is the
same interpreter with strings that carry their texts, and no heap: the instance `StringStore String
Unit` of everything that runs programs.

A machine with a heap stands for one without (`Machine.plain`). The two go through a run side by side.
Each task takes what a machine stands for to what the machine is taken to (`Task.refines_step`), and
keeps every handle valid, since the values that are stored come from an evaluation, which says so of
them. By induction on the steps, so does a run, however far it is followed (`Config.refines_run`).
-/

namespace Silly

namespace Machine

/-- **A machine whose handles are all given out** by its heap. -/
def Valid (m : Machine) : Prop := m.env.Valid m.heap

/-- **What a machine stands for**: the machine without a heap in which each string carries its
text. -/
def plain (m : Machine) : Machine String Unit :=
  ⟨(), m.env.plain m.heap, m.subs, m.printer, m.calls, m.maxCalls, m.log⟩

variable {m : Machine} (names : Interner)

theorem valid_initial (printer : Printer) (maxCalls : Nat) : (initial printer maxCalls).Valid :=
  Environment.all_initial

theorem plain_initial (printer : Printer) (maxCalls : Nat) :
    (initial printer maxCalls).plain = start () printer maxCalls := by
  simp [initial, start, plain, Environment.plain]

/-! ### What a machine does besides evaluating -/

/-- Whether a variable is declared does not depend on values. -/
@[simp] theorem plain_isDeclared (x : Name) :
    m.plain.env.isDeclared x = m.env.isDeclared x :=
  Environment.map_isDeclared _ _ _

@[simp] theorem plain_note (e : Event) : m.plain.note e = (m.note e).plain := rfl

@[simp] theorem plain_enterScope : m.plain.enterScope = m.enterScope.plain := by
  simp [enterScope, plain, Environment.plain]

@[simp] theorem plain_leaveScope : m.plain.leaveScope = m.leaveScope.plain := by
  simp [leaveScope, plain, Environment.plain]

theorem Valid.note (hm : m.Valid) (e : Event) : (m.note e).Valid := hm

theorem Valid.print (hm : m.Valid) (s : String) : (m.print s).Valid := hm

theorem Valid.enterScope (hm : m.Valid) : m.enterScope.Valid := Environment.All.beginScope hm

theorem Valid.leaveScope (hm : m.Valid) : m.leaveScope.Valid := Environment.All.endScope hm

/-- A frame under a given one is the same in what the machine stands for. -/
theorem plain_enterScopeIn (parent : FrameId) :
    m.plain.enterScopeIn parent =
      ((m.enterScopeIn parent).1, (m.enterScopeIn parent).2.plain) := by
  obtain ⟨heap, env, subs, printer, calls, maxCalls, log⟩ := m
  simp only [enterScopeIn, plain, Environment.plain, Environment.map_beginScopeIn]
  obtain ⟨r, env'⟩ := env.beginScopeIn parent
  cases r <;> rfl

theorem Valid.enterScopeIn (hm : m.Valid) (parent : FrameId) :
    (m.enterScopeIn parent).2.Valid := by
  obtain ⟨heap, env, subs, printer, calls, maxCalls, log⟩ := m
  have hv := Environment.All.beginScopeIn hm parent
  simp only [Machine.enterScopeIn]
  revert hv
  obtain ⟨r, env'⟩ := env.beginScopeIn parent
  cases r <;> exact id

/-- **A declaration** is the same in what the machine stands for. -/
theorem plain_declare (x : Name) :
    m.plain.declare names x = ((m.declare names x).1, (m.declare names x).2.plain) := by
  simp [declare, plain, Environment.plain]

theorem Valid.declare (hm : m.Valid) (x : Name) : (m.declare names x).2.Valid :=
  Environment.All.declare hm x

/-- A new value is that which it stands for. -/
theorem plain_store (x : Name) (v : Value) :
    m.plain.store names x (v.plain m.heap) =
      ((m.store names x v).1, (m.store names x v).2.plain) := by
  simp [store, plain, Environment.plain]

/-- **A new value** is stored, and it was valid. -/
theorem Valid.store (hm : m.Valid) (x : Name) {v : Value} (hv : v.Valid m.heap) :
    (m.store names x v).2.Valid :=
  Environment.All.store hm x hv

/-- **The two ways in which an evaluation ends.** -/
theorem Valid.eval_cases (hm : m.Valid) (e : Expr) :
    (∃ s m', m.eval names e = (.error s, m') ∧ m.plain.eval names e = (.error s, m'.plain) ∧
        m'.Valid) ∨
      ∃ v m', m.eval names e = (.ok v, m') ∧
        m.plain.eval names e = (.ok (v.plain m'.heap), m'.plain) ∧ m'.Valid ∧
        v.Valid m'.heap := by
  obtain ⟨heap, env, subs, printer, calls, maxCalls, log⟩ := m
  -- The heap has grown by the evaluation, and what the environment stands for is the same in it.
  obtain ⟨s, h', hr, hr', hh⟩ | ⟨v, h', hr, hr', hh, hv⟩ := (e.tracks_eval names hm).cases
  · refine .inl ⟨s, ⟨h', env, subs, printer, calls, maxCalls, log⟩, ?_, ?_, hm.of_extends hh⟩
    · simp only [eval, hr]
    · simp only [eval, plain, hr', hm.plain_of_extends hh]
  · refine .inr ⟨v, ⟨h', env, subs, printer, calls, maxCalls, log⟩, ?_, ?_, hm.of_extends hh, hv⟩
    · simp only [eval, hr]
    · simp only [eval, plain, hr', hm.plain_of_extends hh]

end Machine

/-! ### Points of a run -/

/-- What a point of a run stands for. -/
def Config.plain (c : Config) : Config String Unit := ⟨c.signal, c.control, c.machine.plain⟩

/-- **A point of a run and one without a heap**: the first is valid, and stands for the second. -/
structure Config.Refines (c : Config) (c' : Config String Unit) : Prop where
  valid : c.machine.Valid
  plain : c.plain = c'

section Step

variable {m : Machine} (names : Interner)

theorem Config.Refines.of_valid (hm : m.Valid) (signal : Outcome Status) (k : List Task) :
    Config.Refines ⟨signal, k, m⟩ ⟨signal, k, m.plain⟩ :=
  ⟨hm, rfl⟩

/-- The two points take the same way where the condition is the same. -/
theorem Config.Refines.ite {p p' : Prop} [Decidable p] [Decidable p'] {c d : Config}
    {c' d' : Config String Unit} (hp : p ↔ p') (hc : c.Refines c') (hd : d.Refines d') :
    (if p then c else d).Refines (if p' then c' else d') := by
  by_cases h : p
  · rw [if_pos h, if_pos (hp.mp h)]
    exact hc
  · rw [if_neg h, if_neg (mt hp.mpr h)]
    exact hd

/-- **A value is evaluated and stored.** -/
theorem refines_evalStore (hm : m.Valid) (x : Name) (e : Expr) (k : List Task) :
    (Machine.evalStore names x e k m).Refines (Machine.evalStore names x e k m.plain) := by
  obtain ⟨s, m', hr, hr', hm'⟩ | ⟨v, m', hr, hr', hm', hv⟩ := hm.eval_cases names e
  · simp only [Machine.evalStore, hr, hr']
    exact .of_valid hm' _ k
  · have hstore := hm'.store names x hv
    simp only [Machine.evalStore, hr, hr', Machine.plain_store]
    revert hstore
    obtain ⟨r, m''⟩ := m'.store names x v
    intro hstore
    -- A value is stored or there is no variable for it; both are the same without a heap.
    cases r with
    | error s => exact .of_valid hstore _ k
    | ok => exact .of_valid hstore _ k

/-- An assignment. -/
theorem refines_assign (hm : m.Valid) (x : Name) (e : Expr) (k : List Task) :
    (Machine.assign names x e k m).Refines (Machine.assign names x e k m.plain) := by
  unfold Machine.assign
  -- Whether the variable is declared does not depend on values.
  rw [Machine.plain_isDeclared]
  cases m.env.isDeclared x with
  | error f => exact .of_valid hm _ k
  | ok declared =>
    cases declared with
    | false => exact .of_valid hm _ k
    | true => exact refines_evalStore names hm x e k

/-- A declaration with its value. -/
theorem refines_declareStore (hm : m.Valid) (x : Name) (e : Expr) (k : List Task) :
    (Machine.declareStore names x e k m).Refines (Machine.declareStore names x e k m.plain) := by
  have hdeclare := hm.declare names x
  simp only [Machine.declareStore, Machine.plain_declare]
  revert hdeclare
  obtain ⟨r, m'⟩ := m.declare names x
  -- The variable is declared before its value is evaluated, in the environment of both.
  intro hdeclare
  cases r with
  | error s => exact .of_valid hdeclare _ k
  | ok => exact refines_evalStore names hdeclare x e k

/-- **An output.** -/
theorem refines_printValue (hm : m.Valid) (e : Expr) (k : List Task) :
    (Machine.printValue names e k m).Refines (Machine.printValue names e k m.plain) := by
  obtain ⟨s, m', hr, hr', hm'⟩ | ⟨v, m', hr, hr', hm', hv⟩ := hm.eval_cases names e
  · simp only [Machine.printValue, hr, hr']
    exact .of_valid hm' _ k
  · -- The line has no handles in it, so it is the same line.
    have hprinted : (v.plain m'.heap).printed m'.plain.heap = v.printed m'.heap :=
      Value.printed_plain hv
    simp only [Machine.printValue, hr, hr', hprinted]
    cases v.printed m'.heap with
    | error s => exact .of_valid hm' _ k
    | ok line => exact .of_valid (hm'.print line) _ k

theorem Value.toBool_plain (operation : Operation) {h : Heap} (v : Value) :
    (v.plain h).toBool operation = v.toBool operation := by
  cases v with
  | list vs => rw [plain_list]; rfl
  | _ => rfl

theorem Value.toInt_plain (operation : Operation) {h : Heap} (v : Value) :
    (v.plain h).toInt operation = v.toInt operation := by
  cases v with
  | list vs => rw [plain_list]; rfl
  | _ => rfl

/-- **A condition** comes to the same without a heap. -/
theorem Machine.Valid.test (hm : m.Valid) (operation : Operation) (e : Expr) :
    m.plain.test names operation e =
        ((m.test names operation e).1, (m.test names operation e).2.plain) ∧
      (m.test names operation e).2.Valid := by
  unfold Machine.test
  obtain ⟨s, m', hr, hr', hm'⟩ | ⟨v, m', hr, hr', hm', hv⟩ := hm.eval_cases names e
  · rw [hr, hr']
    exact ⟨rfl, hm'⟩
  · rw [hr, hr']
    refine ⟨?_, hm'⟩
    simp only [Except.bind, Value.toBool_plain]

/-- A loop that counts begins with its count. -/
theorem refines_beginRepeat (hm : m.Valid) (count : Expr) (body : Block) (k : List Task) :
    (Machine.beginRepeat names count body k m).Refines
      (Machine.beginRepeat names count body k m.plain) := by
  obtain ⟨s, m', hr, hr', hm'⟩ | ⟨v, m', hr, hr', hm', hv⟩ := hm.eval_cases names count
  · simp only [Machine.beginRepeat, hr, hr']
    exact .of_valid hm' _ k
  -- The count is an integer on both sides or on none.
  · simp only [Machine.beginRepeat, hr, hr', Value.toInt_plain]
    cases v.toInt .repeatCount with
    | error s => exact .of_valid hm' _ k
    | ok n => exact .of_valid (hm'.note (.repeatTimes n)) _ _

/-- A subroutine is defined with the frame that is the current one. -/
theorem refines_define (hm : m.Valid) (x : Name) (body : Block) (k : List Task) :
    (Machine.define names x body k m).Refines (Machine.define names x body k m.plain) := by
  unfold Machine.define
  cases names.resolve x with
  | error s => exact .of_valid hm _ k
  | ok name =>
    have hdefined :
        ((m.note (.defineSubroutine name)).addSub x ⟨body, m.env.current⟩).Valid := hm
    exact .ite Iff.rfl (.of_valid hm _ k) (.of_valid hdefined _ k)

/-- A subroutine is invoked under the frame of its definition. -/
theorem refines_invoke (hm : m.Valid) (name : String) (k : List Task) :
    ∀ sub : Option Subroutine,
      (Machine.invoke name k m sub).Refines (Machine.invoke name k m.plain sub)
  | none => .of_valid (hm.note .exitCall) _ k
  | some sub => by
    have hscope := hm.enterScopeIn sub.scope
    -- The limit counts calls, which are the same on both sides, and so is the frame that is opened.
    refine .ite Iff.rfl (.of_valid (hm.note .exitCall) _ k) ?_
    simp only [Machine.plain_enterScopeIn]
    revert hscope
    obtain ⟨r, m'⟩ := m.enterScopeIn sub.scope
    intro hscope
    cases r with
    | error s => exact .of_valid (hscope.note .exitCall) _ k
    | ok =>
      have hbegun : m'.beginCall.Valid := hscope
      exact .of_valid hbegun _ _

/-- A call, which looks up the subroutine by its name. -/
theorem refines_call (hm : m.Valid) (x : Name) (k : List Task) :
    (Machine.call names x k m).Refines (Machine.call names x k m.plain) := by
  unfold Machine.call
  cases names.resolve x with
  | error s => exact .of_valid hm _ k
  | ok name =>
    have hcalled : ((m.note (.callSubroutine name)).note .enterCall).Valid := hm
    exact refines_invoke hcalled name k (m.subs.lookup x)

theorem refines_enterBlock (hm : m.Valid) (body : Block) (k : List Task) :
    (enterBlock body k m).Refines (enterBlock body k m.plain) := by
  simp only [enterBlock, Machine.plain_enterScope]
  exact .of_valid hm.enterScope _ _

/-- **The arms of an `if`** are tried in order. -/
theorem Arms.refines_start (k : List Task) : ∀ (arms : Arms) {m : Machine}, m.Valid →
    (arms.start names k m).Refines (arms.start names k m.plain)
  | .done, _, hm => .of_valid hm _ k
  | .otherwise body, _, hm => refines_enterBlock hm body k
  -- The condition has the same outcome on both sides, and the same arm is taken.
  | .arm cond body rest, m, hm => by
    obtain ⟨htest, hvalid⟩ := hm.test names .ifCondition cond
    simp only [Arms.start, htest]
    revert hvalid
    obtain ⟨r, m'⟩ := m.test names .ifCondition cond
    intro hvalid
    cases r with
    | error s => exact .of_valid hvalid _ k
    | ok holds =>
      cases holds with
      | true => exact refines_enterBlock hvalid body k
      | false => exact rest.refines_start k hvalid

/-- **A statement begins.** -/
theorem Stmt.refines_start (hm : m.Valid) (k : List Task) (s : Stmt) :
    (s.start names k m).Refines (s.start names k m.plain) := by
  cases s with
  | assign x e => exact refines_assign names hm x e k
  | declare x e => exact refines_declareStore names hm x e k
  | print e => exact refines_printValue names hm e k
  | ifElse arms => exact arms.refines_start names k hm
  | whileDo cond body => exact .of_valid hm _ _
  | repeatTimes count body => exact refines_beginRepeat names hm count body k
  | sub x body => exact refines_define names hm x body k
  | call x => exact refines_call names hm x k
  | exit => exact .of_valid hm _ k
  | breakLoop => exact .of_valid hm _ k

/-- A loop tests its condition only where the signal is `ok`. -/
theorem refines_whileDo (hm : m.Valid) (cond : Expr) (body : Block) (signal : Outcome Status)
    (k : List Task) :
    ((Task.whileDo cond body).step names signal k m).Refines
      ((Task.whileDo cond body).step names signal k m.plain) := by
  -- By the four signals; with all but `ok` the machine stays as it is.
  obtain s | (_ | _ | _) := signal
  case ok.ok =>
    obtain ⟨htest, hvalid⟩ := hm.test names .whileCondition cond
    simp only [Task.step, htest]
    revert hvalid
    obtain ⟨r, m'⟩ := m.test names .whileCondition cond
    intro hvalid
    cases r with
    | error s => exact .of_valid hvalid _ k
    | ok holds =>
      cases holds with
      | true => exact refines_enterBlock hvalid body _
      | false => exact .of_valid hvalid _ k
  all_goals exact .of_valid hm _ k

/-- **One task** takes what a machine stands for to what the machine is taken to. -/
theorem Task.refines_step (hm : m.Valid) (task : Task) (signal : Outcome Status)
    (k : List Task) :
    (task.step names signal k m).Refines (task.step names signal k m.plain) := by
  -- By the task. Each of them does one thing, for which there is a lemma above.
  cases task with
  | run rest =>
    obtain s | (_ | _ | _) := signal
    case ok.ok =>
      cases rest with
      | nil => exact .of_valid hm _ k
      | cons s rest => exact s.refines_start names hm _
    all_goals exact .of_valid hm _ k
  | leaveScope =>
    simp only [Task.step, Machine.plain_leaveScope]
    exact .of_valid hm.leaveScope _ k
  | leaveCall => exact .of_valid (m := m.leaveCall) hm _ k
  | whileDo cond body => exact refines_whileDo names hm cond body signal k
  | repeatTimes left body =>
    obtain s | (_ | _ | _) := signal
    case ok.ok =>
      cases left with
      | zero => exact .of_valid hm _ k
      | succ left => exact refines_enterBlock hm body _
    all_goals exact .of_valid hm _ k

end Step

/-! ### Runs -/

/-- What a run stands for. -/
def Progress.plain : Progress → Progress String Unit
  | .finished result m => .finished result m.plain
  | .running c => .running c.plain

/-- **A run and one without a heap**: the machine of the first is valid, and the first stands for
the second. -/
structure Progress.Refines (r : Progress) (r' : Progress String Unit) : Prop where
  valid : r.machine.Valid
  plain : r.plain = r'

section Run

variable (names : Interner)

/-- **A run from a valid point** is that from what the point stands for, however far it is
followed. -/
theorem Config.refines_run (fuel : Nat) {c : Config} (hc : c.machine.Valid) :
    (c.run names fuel).Refines (c.plain.run names fuel) := by
  -- A step keeps the handles valid, so the hypothesis holds again of the point it leads to.
  induction fuel generalizing c with
  | zero =>
    obtain ⟨signal, control, m⟩ := c
    cases control with
    | nil => exact ⟨hc, rfl⟩
    | cons task k => exact ⟨hc, rfl⟩
  | succ fuel ih =>
    obtain ⟨signal, control, m⟩ := c
    cases control with
    | nil => exact ⟨hc, rfl⟩
    | cons task k =>
      obtain ⟨hvalid, hplain⟩ := task.refines_step names hc signal k
      -- The other run takes this same step, from what the point stands for.
      simp only [Config.plain, Config.run_succ_cons]
      rw [← hplain]
      exact ih hvalid

/-- The line about a program that ends early does not depend on values. -/
theorem Machine.plain_halt (status : Status) (m : Machine) :
    m.plain.halt status = (m.halt status).plain := by
  unfold Machine.halt
  by_cases h : status = .ok
  · rw [if_pos h, if_pos h]
  · rw [if_neg h, if_neg h, Machine.plain_note]

theorem Machine.Valid.halt {m : Machine} (hm : m.Valid) (status : Status) :
    (m.halt status).Valid := by
  unfold Machine.halt
  by_cases h : status = .ok
  · rw [if_pos h]
    exact hm
  · rw [if_neg h]
    exact hm.note _

/-- **A program is run** as it is without a heap. -/
theorem Machine.refines_run {m : Machine} (hm : m.Valid) (fuel : Nat) (p : Program) :
    (m.run names fuel p).Refines (m.plain.run names fuel p) := by
  obtain ⟨hvalid, hplain⟩ := Config.refines_run names fuel (c := m.load p) hm
  have hload : (m.load p).plain = m.plain.load p := rfl
  -- What is left is the line in the log about a program that ends early.
  rw [hload] at hplain
  unfold Machine.run
  rw [← hplain]
  revert hvalid
  generalize (m.load p).run names fuel = progress
  intro hvalid
  cases progress with
  | running c => exact ⟨hvalid, rfl⟩
  | finished result m' =>
    cases result with
    | error s => exact ⟨hvalid, rfl⟩
    | ok status =>
      simp only [Progress.plain, Machine.plain_halt]
      exact ⟨hvalid.halt status, rfl⟩

/-- **A run with a heap stands for the same run without one**: from a machine that has run nothing,
however far the run is followed, the two print and log the same, come to the same result or stand at
the same point, and bind the same variables to the same values once each handle is taken for its
text. All handles are valid, and no text is in the heap twice. -/
theorem Machine.run_refines_plain (p : Program) (printer : Printer) (maxCalls fuel : Nat) :
    let progress := (Machine.initial printer maxCalls).run names fuel p
    progress.plain = (Machine.start () printer maxCalls).run names fuel p ∧
      progress.machine.Valid ∧ progress.machine.heap.table.texts.toList.Nodup := by
  obtain ⟨hvalid, hplain⟩ := Machine.refines_run names (valid_initial printer maxCalls) fuel p
  rw [plain_initial] at hplain
  exact ⟨hplain, hvalid, Heap.texts_nodup _⟩

end Run

end Silly
