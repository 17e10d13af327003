import Silly.Proofs.Environment.Nest
import Silly.Proofs.Machine.Limit
import Silly.Proofs.Tree.Nest

/-!
# A chain of `elseif` runs as nested `if`s

A program and one that nests as it do the same, although the second has more to do. When the first
condition of a nested `if` fails, the second program enters a block of which the only statement is the
`if` with the other conditions. That block has a scope, in which nothing is declared, and it is still to
be closed when the body that was chosen is done. So the environment has a frame in between that the
other one does not have, and the tasks have the end of a block in between (`ControlNests`). The two are
recorded by one list, which says of each open scope whether it is there in both runs.

Each step of the first run is matched by one or more of the second (`Config.Nests.step`): first those
that close blocks in between which are over, then the same step, and then those that open blocks in
between, when an `if` begins (`ArmsNests.meets_start`). As the second run takes a step at least for each
step of the first, neither can go on for ever when the other ends.
-/

namespace Silly

variable (names : Interner)

/-! ### Several steps -/

/-- **Some steps** lead from one point of a run to another. -/
def Config.Leads (n : Nat) (c c' : Config) : Prop :=
  ∀ more, c.run names (n + more) = c'.run names more

section Leads

variable {names} {n n' : Nat} {c c' c'' : Config}

theorem Config.Leads.refl (c : Config) : c.Leads names 0 c := fun more => by rw [Nat.zero_add]

theorem Config.Leads.trans (h : c.Leads names n c') (h' : c'.Leads names n' c'') :
    c.Leads names (n + n') c'' := fun more => by rw [Nat.add_assoc, h, h']

variable (names)

theorem Task.leads_step (task : Task) (signal : Outcome Status) (k : List Task) (m : Machine) :
    Config.Leads names 1 ⟨signal, task :: k, m⟩ (task.step names signal k m) := fun more => by
  rw [Nat.add_comm, Config.run_succ_cons]

/-- The end of a block of which no statement is left. -/
theorem leads_leaveScope (signal : Outcome Status) (k : List Task) (m : Machine) :
    Config.Leads names 2 ⟨signal, .run [] :: .leaveScope :: k, m⟩ ⟨signal, k, m.leaveScope⟩ := by
  have hrun := (Task.run []).leads_step names signal (.leaveScope :: k) m
  rw [Task.step_run_nil] at hrun
  exact hrun.trans (Task.leaveScope.leads_step names signal k m)

/-- **How far a run has come**: it is over and stays so, or its steps have led to some point. -/
theorem Config.run_cases (n : Nat) (c : Config) :
    (∃ result m, ∀ more, c.run names (n + more) = .finished result m) ∨
      ∃ c', c.run names n = .running c' ∧ c.Leads names n c' := by
  -- The induction is on the steps, and each point is one of the two.
  induction n generalizing c with
  | zero =>
    obtain ⟨signal, control, m⟩ := c
    cases control with
    | nil => exact .inl ⟨signal, m, fun more => Config.run_nil ..⟩
    | cons task k => exact .inr ⟨_, rfl, .refl _⟩
  | succ n ih =>
    obtain ⟨signal, control, m⟩ := c
    cases control with
    | nil => exact .inl ⟨signal, m, fun more => Config.run_nil ..⟩
    | cons task k =>
      have hstep := task.leads_step names signal k m
      rw [Config.run_succ_cons, Nat.add_comm]
      -- What is said of the rest of the run is said of all of it, one step later.
      obtain ⟨result, m', hfinished⟩ | ⟨c', hrunning, hleads⟩ := ih (task.step names signal k m)
      · refine .inl ⟨result, m', fun more => ?_⟩
        rw [Nat.add_assoc, hstep, hfinished]
      · exact .inr ⟨c', hrunning, hstep.trans hleads⟩

variable {names} in
/-- **A run that is over** stays over, with the same result. -/
theorem Config.run_finished {result : Outcome Status} {m : Machine}
    (h : c.run names n = .finished result m) (more : Nat) :
    c.run names (n + more) = .finished result m := by
  obtain ⟨result', m', hfinished⟩ | ⟨c', hrunning, -⟩ := c.run_cases names n
  -- If the steps only led to some point, the run would not be over there.
  · rw [hfinished more, ← h]
    exact (hfinished 0).symm
  · rw [hrunning] at h
    cases h

/-- **Printed lines stay** while a run goes on. -/
theorem Config.precedes_run (n more : Nat) (c : Config) :
    (c.run names n).machine.printer.Precedes (c.run names (n + more)).machine.printer := by
  obtain ⟨result, m, hfinished⟩ | ⟨c', hrunning, hleads⟩ := c.run_cases names n
  · rw [hfinished more, show c.run names n = _ from hfinished 0]
    exact .refl _
  · rw [hrunning, hleads more]
    exact (c'.follows_run names more).printed

end Leads

/-! ### Machines -/

/-- **What two tables of subroutines hold under one name**: nothing, or bodies that differ in how
conditions are chained. They belong to the global frame. -/
inductive SubNests : Option Subroutine → Option Subroutine → Prop
  | none : SubNests none none
  | some {body body' : Block} : BlockNests body body' →
      SubNests (some ⟨body, FrameId.global⟩) (some ⟨body', FrameId.global⟩)

theorem SubNests.isSome_eq {sub sub' : Option Subroutine} (h : SubNests sub sub') :
    sub'.isSome = sub.isSome := by
  cases h <;> rfl

/-- **Two machines that differ in frames in between**, and in how conditions are chained in the bodies of
their subroutines. -/
structure Machine.Nests (g : List Opened) (m m' : Machine) : Prop where
  env : m.env.Nests g m'.env
  heap : m'.heap = m.heap
  subs : ∀ x, SubNests (m.subs.lookup x) (m'.subs.lookup x)
  printer : m'.printer = m.printer
  calls : m'.calls = m.calls
  maxCalls : m'.maxCalls = m.maxCalls

namespace Machine.Nests

variable {g : List Opened} {m m' : Machine}

theorem initial (printer : Printer) (maxCalls : Nat) :
    Nests [] (Machine.initial printer maxCalls) (Machine.initial printer maxCalls) :=
  ⟨.initial, rfl, fun _ => .none, rfl, rfl, rfl⟩

theorem note (h : Nests g m m') (e e' : Event) : Nests g (m.note e) (m'.note e') := { h with }

theorem print (h : Nests g m m') (s : String) : Nests g (m.print s) (m'.print s) :=
  { h with printer := congrArg (Printer.println · s) h.printer }

/-- A definition adds the one body here and the other there. -/
theorem addSub (h : Nests g m m') (x : Name) {body body' : Block} (hbody : BlockNests body body') :
    Nests g (m.addSub x ⟨body, FrameId.global⟩) (m'.addSub x ⟨body', FrameId.global⟩) := by
  refine { h with subs := fun y => ?_ }
  show SubNests (((x, (⟨body, FrameId.global⟩ : Subroutine)) :: m.subs).lookup y)
    (((x, ⟨body', FrameId.global⟩) :: m'.subs).lookup y)
  rw [List.lookup_cons, List.lookup_cons]
  -- The new subroutine is found under its name, and the old ones under theirs.
  cases y == x with
  | true => exact .some hbody
  | false => exact h.subs y

theorem enterScope (h : Nests g m m') : Nests (.both :: g) m.enterScope m'.enterScope :=
  { h with env := h.env.beginScope }

/-- **A block in between begins.** -/
theorem enterBetween (h : Nests g m m') : Nests (.between :: g) m m'.enterScope :=
  { h with env := h.env.beginBetween }

theorem leaveScope (h : Nests (.both :: g) m m') : Nests g m.leaveScope m'.leaveScope :=
  { h with env := h.env.endScope }

/-- **A block in between ends.** -/
theorem leaveBetween (h : Nests (.between :: g) m m') : Nests g m m'.leaveScope :=
  { h with env := h.env.endBetween }

theorem beginCall (h : Nests g m m') : Nests g m.beginCall m'.beginCall :=
  { h with calls := congrArg (· + 1) h.calls }

theorem leaveCall (h : Nests g m m') : Nests g m.leaveCall m'.leaveCall :=
  { h with calls := congrArg (· - 1) h.calls }

/-- **A call's frame** is opened in the global frame, which both have. -/
theorem enterScopeIn (h : Nests g m m') :
    ∃ m₁ m₁', m.enterScopeIn FrameId.global = (.ok (), m₁) ∧
      m'.enterScopeIn FrameId.global = (.ok (), m₁') ∧ Nests (.both :: g) m₁ m₁' := by
  obtain ⟨env₁, env₁', hscope, hscope', henv⟩ := h.env.beginScopeIn
  simp only [Machine.enterScopeIn, hscope, hscope']
  exact ⟨_, _, rfl, rfl, { h with env := henv }⟩

/-- **An expression comes to the same in both**, as every variable has the same value. -/
theorem eval (h : Nests g m m') (e : Expr) :
    ∃ r m₁ m₁', m.eval names e = (r, m₁) ∧ m'.eval names e = (r, m₁') ∧ Nests g m₁ m₁' := by
  -- The heap is the same, and a variable is looked up through the frames in between, which hold none.
  have heval : e.eval names m'.env m'.heap = e.eval names m.env m.heap := by
    rw [h.heap]
    refine (ExprAlike.refl (R := Eq) (fun _ => rfl) e).eval_eq (fun x x' hx => ?_)
      (fun x x' hx => ?_) m.heap
    · rw [hx]
    · rw [hx, h.env.lookup]
  refine ⟨(e.eval names m.env m.heap).1, { m with heap := (e.eval names m.env m.heap).2 },
    { m' with heap := (e.eval names m.env m.heap).2 }, rfl, ?_, { h with heap := rfl }⟩
  rw [← heval]
  rfl

/-- **A value is stored** in the frame that has the variable, which is in both. -/
theorem store (h : Nests g m m') (x : Name) (v : Value) :
    ∃ r m₁ m₁', m.store names x v = (r, m₁) ∧ m'.store names x v = (r, m₁') ∧ Nests g m₁ m₁' := by
  obtain ⟨hr, henv⟩ := h.env.store x v
  refine ⟨(m.env.store x v).1.outcome names, { m with env := (m.env.store x v).2 },
    { m' with env := (m'.env.store x v).2 }, rfl, ?_, { h with env := henv }⟩
  rw [← hr]
  rfl

/-- **A declaration** is made in the innermost frame, which must not be one in between. -/
theorem declare (h : Nests g m m') (hg : g.head? ≠ some .between) (x : Name) :
    ∃ r m₁ m₁', m.declare names x = (r, m₁) ∧ m'.declare names x = (r, m₁') ∧ Nests g m₁ m₁' := by
  obtain ⟨hr, henv⟩ := h.env.declare hg x
  refine ⟨(m.env.declare x).1.outcome names, { m with env := (m.env.declare x).2 },
    { m' with env := (m'.env.declare x).2 }, rfl, ?_, { h with env := henv }⟩
  rw [← hr]
  rfl

/-- A test comes to the same in both. -/
theorem test (h : Nests g m m') (operation : Operation) (e : Expr) :
    ∃ r m₁ m₁', m.test names operation e = (r, m₁) ∧ m'.test names operation e = (r, m₁') ∧
      Nests g m₁ m₁' := by
  obtain ⟨r, m₁, m₁', hr, hr', hm₁⟩ := h.eval names e
  unfold Machine.test
  rw [hr, hr']
  exact ⟨_, _, _, rfl, rfl, hm₁⟩

/-- What a program adds to the log when it ends is all that is left. -/
theorem ended (h : Nests [] m m') (result : Outcome Status) :
    Nests [] (m.ended result) (m'.ended result) := by
  cases result with
  | error s => exact h
  | ok status =>
    show Nests [] (m.halt status) (m'.halt status)
    unfold Machine.halt
    split
    -- A log may say that the program ended early.
    · exact h
    · exact h.note _ _

end Machine.Nests

/-! ### Points of a run -/

/-- **Tasks that differ in blocks in between** and in how conditions are chained. The list says of the
scopes that the tasks close whether they are open in both runs. A statement never runs where the
innermost scope is in between, but for the `if` that is alone in its block. -/
inductive ControlNests : List Opened → List Task → List Task → Prop
  | nil : ControlNests [] [] []
  | block {g : List Opened} {ss ss' : List Stmt} {k k' : List Task} : g.head? ≠ some .between →
      BlockNests ss ss' → ControlNests g k k' → ControlNests g (.run ss :: k) (.run ss' :: k')
  | program {p p' : Program} {k k' : List Task} : ProgramNests p p' → ControlNests [] k k' →
      ControlNests [] (.run p :: k) (.run p' :: k')
  | leaveScope {g : List Opened} {k k' : List Task} : ControlNests g k k' →
      ControlNests (.both :: g) (.leaveScope :: k) (.leaveScope :: k')
  | between {g : List Opened} {k k' : List Task} : ControlNests g k k' →
      ControlNests (.between :: g) k (.run [] :: .leaveScope :: k')
  | leaveCall {g : List Opened} {k k' : List Task} : ControlNests g k k' →
      ControlNests g (.leaveCall :: k) (.leaveCall :: k')
  | whileDo {g : List Opened} (c : Expr) {body body' : Block} {k k' : List Task} :
      BlockNests body body' → ControlNests g k k' →
      ControlNests g (.whileDo c body :: k) (.whileDo c body' :: k')
  | repeatTimes {g : List Opened} (left : Nat) {body body' : Block} {k k' : List Task} :
      BlockNests body body' → ControlNests g k k' →
      ControlNests g (.repeatTimes left body :: k) (.repeatTimes left body' :: k')

/-- **Two points of runs** with the same signal, that differ in blocks in between. -/
inductive Config.Nests : Config → Config → Prop
  | mk {g : List Opened} {k k' : List Task} {m m' : Machine} (signal : Outcome Status) :
      ControlNests g k k' → Machine.Nests g m m' → Nests ⟨signal, k, m⟩ ⟨signal, k', m'⟩

/-- **The second run comes to where the first one is**, after some steps or none. -/
def Config.Meets (c c' : Config) : Prop := ∃ n c₁', c'.Leads names n c₁' ∧ c.Nests c₁'

theorem Config.Nests.meets {c c' : Config} (h : c.Nests c') : c.Meets names c' :=
  ⟨0, c', .refl c', h⟩

/-! ### Statements -/

section Statements

variable {g : List Opened} {k k' : List Task} {m m' : Machine}

/-- **A block that both enter.** -/
theorem nests_enterBlock (hk : ControlNests g k k') (hm : Machine.Nests g m m') {body body' : Block}
    (hbody : BlockNests body body') : (enterBlock body k m).Nests (enterBlock body' k' m') := by
  have hg : (Opened.both :: g).head? ≠ some .between := nofun
  exact .mk _ (.block hg hbody (.leaveScope hk)) hm.enterScope

/-- **Evaluating and storing.** -/
theorem nests_evalStore (hk : ControlNests g k k') (hm : Machine.Nests g m m') (x : Name) (e : Expr) :
    (Machine.evalStore names x e k m).Nests (Machine.evalStore names x e k' m') := by
  obtain ⟨r, m₁, m₁', hr, hr', hm₁⟩ := hm.eval names e
  unfold Machine.evalStore
  -- The values are the same, and so are the two outcomes of storing them.
  rw [hr, hr']
  cases r with
  | error s => exact .mk _ hk hm₁
  | ok v =>
    obtain ⟨r, m₂, m₂', hs, hs', hm₂⟩ := hm₁.store names x v
    dsimp only
    rw [hs, hs']
    cases r with
    | error s => exact .mk _ hk hm₂
    | ok => exact .mk _ hk hm₂

/-- **An assignment.** -/
theorem nests_assign (hk : ControlNests g k k') (hm : Machine.Nests g m m') (x : Name) (e : Expr) :
    (Machine.assign names x e k m).Nests (Machine.assign names x e k' m') := by
  unfold Machine.assign
  rw [hm.env.isDeclared x]
  cases m.env.isDeclared x with
  | error f => exact .mk _ hk hm
  | ok declared =>
    cases declared with
    | false => exact .mk _ hk hm
    | true => exact nests_evalStore names hk hm x e

/-- **A declaration**, which is never alone in a block in between. -/
theorem nests_declareStore (hg : g.head? ≠ some .between) (hk : ControlNests g k k')
    (hm : Machine.Nests g m m') (x : Name) (e : Expr) :
    (Machine.declareStore names x e k m).Nests (Machine.declareStore names x e k' m') := by
  obtain ⟨r, m₁, m₁', hr, hr', hm₁⟩ := hm.declare names hg x
  unfold Machine.declareStore
  rw [hr, hr']
  cases r with
  | error s => exact .mk _ hk hm₁
  | ok => exact nests_evalStore names hk hm₁ x e

/-- **A `print`**: the heaps are the same, and so the lines are. -/
theorem nests_printValue (hk : ControlNests g k k') (hm : Machine.Nests g m m') (e : Expr) :
    (Machine.printValue names e k m).Nests (Machine.printValue names e k' m') := by
  obtain ⟨r, m₁, m₁', hr, hr', hm₁⟩ := hm.eval names e
  unfold Machine.printValue
  rw [hr, hr']
  cases r with
  | error s => exact .mk _ hk hm₁
  | ok v =>
    dsimp only
    rw [hm₁.heap]
    cases v.printed m₁.heap with
    | error s => exact .mk _ hk hm₁
    | ok line => exact .mk _ hk (hm₁.print line)

/-- **A `repeat`** has the same count in both. -/
theorem nests_beginRepeat (hk : ControlNests g k k') (hm : Machine.Nests g m m') (count : Expr)
    {body body' : Block} (hbody : BlockNests body body') :
    (Machine.beginRepeat names count body k m).Nests
      (Machine.beginRepeat names count body' k' m') := by
  obtain ⟨r, m₁, m₁', hr, hr', hm₁⟩ := hm.eval names count
  unfold Machine.beginRepeat
  rw [hr, hr']
  cases r with
  | error s => exact .mk _ hk hm₁
  | ok v =>
    dsimp only
    cases v.toInt .repeatCount with
    | error s => exact .mk _ hk hm₁
    | ok n => exact .mk _ (.repeatTimes _ hbody hk) (hm₁.note _ _)

/-- **A definition**, which is carried out only where the global frame is innermost. -/
theorem nests_define (hk : ControlNests [] k k') (hm : Machine.Nests [] m m') (x : Name)
    {body body' : Block} (hbody : BlockNests body body') :
    (Machine.define names x body k m).Nests (Machine.define names x body' k' m') := by
  -- A definition stands at the top level, where no block is open.
  have hcurrent : m.env.current = FrameId.global := by
    rw [hm.env.tidy.current_eq, hm.env.frames.size]
    rfl
  have hcurrent' : m'.env.current = FrameId.global := by rw [hm.env.eq, hcurrent]
  unfold Machine.define
  rw [hcurrent, hcurrent', (hm.subs x).isSome_eq]
  cases names.resolve x with
  | error s => exact .mk _ hk hm
  | ok name =>
    dsimp only
    split
    · exact .mk _ hk hm
    · exact .mk _ hk ((hm.note _ _).addSub x hbody)

/-- **A call.** As many calls are active in both, so both come to the limit or neither does. -/
theorem nests_call (hk : ControlNests g k k') (hm : Machine.Nests g m m') (x : Name) :
    (Machine.call names x k m).Nests (Machine.call names x k' m') := by
  unfold Machine.call
  cases names.resolve x with
  | error s => exact .mk _ hk hm
  | ok name =>
    -- Both write the same lines to the log before they look for the subroutine.
    have hnoted := (hm.note (.callSubroutine name) (.callSubroutine name)).note .enterCall .enterCall
    have hsub := hm.subs x
    dsimp only
    generalize m.subs.lookup x = sub, m'.subs.lookup x = sub' at hsub
    cases hsub with
    | none => exact .mk _ hk (hnoted.note _ _)
    | some hbody =>
      unfold Machine.invoke
      dsimp only
      rw [hnoted.calls, hnoted.maxCalls]
      split
      · exact .mk _ hk (hnoted.note _ _)
      · obtain ⟨m₁, m₁', hr, hr', hm₁⟩ := hnoted.enterScopeIn
        rw [hr, hr']
        have hg : (Opened.both :: g).head? ≠ some .between := nofun
        exact .mk _ (.block hg hbody (.leaveScope (.leaveCall hk))) hm₁.beginCall

/-- **The same arm is chosen** in both. Where it is behind a nested `if`, the second run takes the steps
that lead there. -/
theorem ArmsNests.meets_start : ∀ (arms arms' : Arms), ArmsNests arms arms' →
    ∀ {g : List Opened} {k k' : List Task} {m m' : Machine}, ControlNests g k k' →
    Machine.Nests g m m' → (arms.start names k m).Meets names (arms'.start names k' m')
  | .done, _, harms, _, _, _, _, _, hk, hm => by
    cases harms
    exact Config.Nests.meets names (.mk _ hk hm)
  | .otherwise _, _, harms, _, _, _, _, _, hk, hm => by
    cases harms with
    | otherwise hbody => exact (nests_enterBlock hk hm hbody).meets names
  | .arm c body rest, arms', harms, g, k, k', m, m', hk, hm => by
    -- The test comes to the same in both. The second run may have the other conditions in a nested
    -- `if`.
    obtain ⟨r, m₁, m₁', hr, hr', hm₁⟩ := hm.test names .ifCondition c
    cases harms with
    | arm _ hbody hrest =>
      simp only [Arms.start, hr, hr']
      obtain s | (_ | _) := r
      · exact Config.Nests.meets names (.mk _ hk hm₁)
      · exact ArmsNests.meets_start _ _ hrest hk hm₁
      · exact (nests_enterBlock hk hm₁ hbody).meets names
    | @nest _ _ _ _ _ _ arms' hbody hrest =>
      rw [Arms.start, Arms.start, hr, hr']
      obtain s | (_ | _) := r
      · exact Config.Nests.meets names (.mk _ hk hm₁)
      · -- One step enters the block in between, and its `if` begins with the next one.
        have hstep := (Task.run [.ifElse arms']).leads_step names (.ok .ok)
          (.leaveScope :: k') m₁'.enterScope
        obtain ⟨n, c₁', hleads, hnests⟩ :=
          ArmsNests.meets_start _ _ hrest (.between hk) hm₁.enterBetween
        exact ⟨1 + n, c₁', hstep.trans hleads, hnests⟩
      · exact (nests_enterBlock hk hm₁ hbody).meets names

/-- **A statement within a block.** -/
theorem StmtNests.meets_start (hg : g.head? ≠ some .between) (hk : ControlNests g k k')
    (hm : Machine.Nests g m m') {s s' : Stmt} (hs : StmtNests s s') :
    (s.start names k m).Meets names (s'.start names k' m') := by
  -- Only an `if` may begin in another way, and all others are the same up to their bodies.
  cases hs with
  | assign x e => exact (nests_assign names hk hm x e).meets names
  | declare x e => exact (nests_declareStore names hg hk hm x e).meets names
  | print e => exact (nests_printValue names hk hm e).meets names
  | ifElse harms => exact ArmsNests.meets_start names _ _ harms hk hm
  | whileDo c hbody => exact Config.Nests.meets names (.mk _ (.whileDo c hbody hk) hm)
  | repeatTimes n hbody => exact (nests_beginRepeat names hk hm n hbody).meets names
  | call x => exact (nests_call names hk hm x).meets names
  | exit => exact Config.Nests.meets names (.mk _ hk hm)
  | breakLoop => exact Config.Nests.meets names (.mk _ hk hm)

/-- **A statement at the top level.** -/
theorem TopNests.meets_start (hk : ControlNests [] k k') (hm : Machine.Nests [] m m') {s s' : Stmt}
    (hs : TopNests s s') : (s.start names k m).Meets names (s'.start names k' m') := by
  cases hs with
  | stmt hs =>
    have hg : ([] : List Opened).head? ≠ some .between := nofun
    exact hs.meets_start names hg hk hm
  | sub x hbody => exact (nests_define names hk hm x hbody).meets names

/-! ### Tasks -/

/-- **A block** in both runs. -/
theorem meets_run_block (signal : Outcome Status) (hg : g.head? ≠ some .between) {ss ss' : List Stmt}
    (hss : BlockNests ss ss') (hk : ControlNests g k k') (hm : Machine.Nests g m m') :
    ((Task.run ss).step names signal k m).Meets names ((Task.run ss').step names signal k' m') := by
  obtain s | (_ | _ | _) := signal
  -- With nothing to stop it, the first statement of each begins.
  case ok.ok =>
    cases hss with
    | nil => exact Config.Nests.meets names (.mk _ hk hm)
    | cons hs hrest => exact hs.meets_start names hg (.block hg hrest hk) hm
  all_goals exact Config.Nests.meets names (.mk _ hk hm)

/-- **A program** in both runs. -/
theorem meets_run_program (signal : Outcome Status) {p p' : Program} (hp : ProgramNests p p')
    (hk : ControlNests [] k k') (hm : Machine.Nests [] m m') :
    ((Task.run p).step names signal k m).Meets names ((Task.run p').step names signal k' m') := by
  obtain s | (_ | _ | _) := signal
  case ok.ok =>
    cases hp with
    | nil => exact Config.Nests.meets names (.mk _ hk hm)
    | cons hs hrest => exact hs.meets_start names (.program hrest hk) hm
  all_goals exact Config.Nests.meets names (.mk _ hk hm)

/-- **A `while`** is left by both, or both enter its body. -/
theorem nests_step_whileDo (signal : Outcome Status) (c : Expr) {body body' : Block}
    (hbody : BlockNests body body') (hk : ControlNests g k k') (hm : Machine.Nests g m m') :
    ((Task.whileDo c body).step names signal k m).Nests
      ((Task.whileDo c body').step names signal k' m') := by
  obtain s | (_ | _ | _) := signal
  case ok.ok =>
    obtain ⟨r, m₁, m₁', hr, hr', hm₁⟩ := hm.test names .whileCondition c
    simp only [Task.step, hr, hr']
    obtain s | (_ | _) := r
    · exact .mk _ hk hm₁
    · exact .mk _ hk hm₁
    · exact nests_enterBlock (.whileDo c hbody hk) hm₁ hbody
  all_goals exact .mk _ hk hm

/-- **A `repeat`** has the same times left in both. -/
theorem nests_step_repeatTimes (signal : Outcome Status) (left : Nat) {body body' : Block}
    (hbody : BlockNests body body') (hk : ControlNests g k k') (hm : Machine.Nests g m m') :
    ((Task.repeatTimes left body).step names signal k m).Nests
      ((Task.repeatTimes left body').step names signal k' m') := by
  obtain s | (_ | _ | _) := signal
  case ok.ok =>
    cases left with
    | zero => exact .mk _ hk hm
    | succ left => exact nests_enterBlock (.repeatTimes left hbody hk) hm hbody
  all_goals exact .mk _ hk hm

end Statements

/-! ### Runs -/

section Runs

variable {names} in
/-- The second run takes a step, and then those that lead to where the first one is. -/
theorem Config.Meets.step {c : Config} {task' : Task} {signal : Outcome Status} {k' : List Task}
    {m' : Machine} (h : c.Meets names (task'.step names signal k' m')) :
    ∃ n c₁', Config.Leads names (n + 1) ⟨signal, task' :: k', m'⟩ c₁' ∧ c.Nests c₁' := by
  obtain ⟨n, c₁', hleads, hnests⟩ := h
  refine ⟨n, c₁', ?_, hnests⟩
  rw [Nat.add_comm]
  exact (task'.leads_step names signal k' m').trans hleads

/-- **A step of the first run** is matched by one or more of the second. -/
theorem Config.Nests.step {task : Task} {signal : Outcome Status} {k : List Task} {m : Machine}
    {c' : Config} (h : Config.Nests ⟨signal, task :: k, m⟩ c') :
    ∃ n c₁', c'.Leads names (n + 1) c₁' ∧ (task.step names signal k m).Nests c₁' := by
  obtain ⟨-, hcontrol, hm⟩ := h
  next g control' m' =>
  generalize hcons : task :: k = control at hcontrol
  -- Blocks in between are closed first, which leaves the machine of the first run as it is.
  induction hcontrol generalizing m' with
  | nil => cases hcons
  | between hk ih =>
    obtain ⟨n, c₁', hleads, hnests⟩ := ih hm.leaveBetween hcons
    exact ⟨2 + n, c₁', (leads_leaveScope names signal _ m').trans hleads, hnests⟩
  | block hg hss hk =>
    cases hcons
    exact (meets_run_block names signal hg hss hk hm).step
  | program hp hk =>
    cases hcons
    exact (meets_run_program names signal hp hk hm).step
  -- The other tasks are the same in both runs, up to the blocks that they hold.
  | leaveScope hk =>
    cases hcons
    have hnests : (Task.leaveScope.step names signal k m).Nests (Task.leaveScope.step names signal _ m') :=
      .mk signal hk hm.leaveScope
    exact (hnests.meets names).step
  | leaveCall hk =>
    cases hcons
    have hnests : (Task.leaveCall.step names signal k m).Nests (Task.leaveCall.step names signal _ m') :=
      .mk signal hk hm.leaveCall
    exact (hnests.meets names).step
  | whileDo c hbody hk =>
    cases hcons
    exact ((nests_step_whileDo names signal c hbody hk hm).meets names).step
  | repeatTimes left hbody hk =>
    cases hcons
    exact ((nests_step_repeatTimes names signal left hbody hk hm).meets names).step

/-- While the first run has something to do, so has the second. -/
theorem Config.Nests.exists_cons {task : Task} {signal : Outcome Status} {k : List Task} {m : Machine}
    {c' : Config} (h : Config.Nests ⟨signal, task :: k, m⟩ c') :
    ∃ task' k', c'.control = task' :: k' := by
  obtain ⟨-, hcontrol, -⟩ := h
  cases hcontrol <;> exact ⟨_, _, rfl⟩

/-- When nothing is left to do in the first run, the second has blocks in between to close at most. -/
theorem Config.Nests.ends {signal : Outcome Status} {m : Machine} {c' : Config}
    (h : Config.Nests ⟨signal, [], m⟩ c') :
    ∃ n m', c'.Leads names n ⟨signal, [], m'⟩ ∧ Machine.Nests [] m m' := by
  obtain ⟨-, hcontrol, hm⟩ := h
  next g control' m' =>
  -- All that is left in the second run are blocks in between, each with two steps.
  generalize hnil : ([] : List Task) = control at hcontrol
  induction hcontrol generalizing m' with
  | nil => exact ⟨0, m', .refl _, hm⟩
  | between hk ih =>
    obtain ⟨n, m₁', hleads, hnests⟩ := ih hm.leaveBetween hnil
    exact ⟨2 + n, m₁', (leads_leaveScope names signal _ m').trans hleads, hnests⟩
  | _ => cases hnil

/-- **How far the two runs come.** Either the first one is over, and the second comes to the same end, or
the second has taken as many steps at least, and neither is over. -/
theorem Config.Nests.run {c c' : Config} (h : c.Nests c') (fuel : Nat) :
    (∃ result m n m', c.run names fuel = .finished result m ∧
        c'.Leads names n ⟨result, [], m'⟩ ∧ Machine.Nests [] m m') ∨
      ∃ c₁ n c₁', c.run names fuel = .running c₁ ∧ c'.run names n = .running c₁' ∧ fuel ≤ n ∧
        c₁.Nests c₁' := by
  -- The induction is on the steps of the first run.
  induction fuel generalizing c c' with
  | zero =>
    obtain ⟨signal, control, m⟩ := c
    cases control with
    | nil =>
      obtain ⟨n, m', hleads, hm⟩ := h.ends names
      exact .inl ⟨signal, m, n, m', rfl, hleads, hm⟩
    -- No step has been taken, and the first task of the one has its counterpart.
    | cons task k =>
      obtain ⟨task', k', hcons⟩ := h.exists_cons
      obtain ⟨signal', control', m'⟩ := c'
      obtain rfl : control' = task' :: k' := hcons
      exact .inr ⟨_, 0, _, rfl, rfl, Nat.le_refl 0, h⟩
  | succ fuel ih =>
    obtain ⟨signal, control, m⟩ := c
    cases control with
    | nil =>
      obtain ⟨n, m', hleads, hm⟩ := h.ends names
      exact .inl ⟨signal, m, n, m', rfl, hleads, hm⟩
    | cons task k =>
      -- One step of the first run is some steps of the second, at least one.
      obtain ⟨n, c₁', hleads, hnests⟩ := h.step names
      rw [Config.run_succ_cons]
      obtain ⟨result, m, n', m', hrun, hends, hm⟩ | ⟨c₂, n', c₂', hrun, hrun', hle, hgoes⟩ := ih hnests
      · exact .inl ⟨result, m, n + 1 + n', m', hrun, hleads.trans hends, hm⟩
      · refine .inr ⟨c₂, n + 1 + n', c₂', hrun, ?_, by omega, hgoes⟩
        rw [hleads n', hrun']

end Runs

/-! ### Whole programs -/

/-- What a program has printed is what its statements have. -/
theorem Machine.printer_run (m : Machine) (p : Program) (fuel : Nat) :
    (m.run names fuel p).machine.printer = ((m.load p).run names fuel).machine.printer := by
  unfold Machine.run
  cases (m.load p).run names fuel with
  | running c => rfl
  | finished result m' =>
    cases result with
    | error s => rfl
    | ok status => exact ended_printer (.ok status) m'

/-- **A chain of `elseif` means nested `if`s.** Let a program be given and one that nests as it, and any
limit on calls. Then a run of one of the two ends if and only if that of the other does, with the same
result, the same lines printed, the same heap and the same global frame. As long as they run, what the
first has printed at some point the second has printed at some point as well, and what the second has
printed the first will print. -/
theorem elseif_runs_as_nested {p p' : Program} (h : ProgramNests p p') (printer : Printer)
    (maxCalls : Nat) :
    let run (fuel : Nat) (p : Program) := (Machine.initial printer maxCalls).run names fuel p
    let Same (m m' : Machine) : Prop := m'.printer = m.printer ∧ m'.heap = m.heap ∧ m'.env = m.env
    (∀ fuel result m, run fuel p = .finished result m →
        ∃ fuel' m', run fuel' p' = .finished result m' ∧ Same m m') ∧
      (∀ fuel' result m', run fuel' p' = .finished result m' →
        ∃ fuel m, run fuel p = .finished result m ∧ Same m m') ∧
      (∀ fuel, ∃ fuel', (run fuel' p').machine.printer = (run fuel p).machine.printer) ∧
      ∀ fuel', ∃ fuel, (run fuel' p').machine.printer.Precedes (run fuel p).machine.printer := by
  intro run Same
  let start := Machine.initial printer maxCalls
  have hload : (start.load p).Nests (start.load p') :=
    .mk (.ok .ok) (.program h .nil) (.initial printer maxCalls)
  -- What is the same at the end of the statements is the same at the end of the program.
  have hsame {m m' : Machine} (hm : Machine.Nests [] m m') (result : Outcome Status) :
      Same (m.ended result) (m'.ended result) :=
    ⟨(hm.ended result).printer, (hm.ended result).heap, (hm.ended result).env.eq⟩
  -- The first two parts are about runs that end, the other two about what has been printed.
  refine ⟨fun fuel result m hrun => ?_, fun fuel' result m' hrun' => ?_, fun fuel => ?_,
    fun fuel' => ?_⟩
  -- The first run ends, so the second is led to the same end.
  · obtain ⟨m₁, hfinished, rfl⟩ := (Machine.run_eq_finished_iff names).mp hrun
    obtain ⟨_, _, n, m₁', hrun₁, hleads, hm⟩ | ⟨c₁, _, _, hrunning, -⟩ :=
      hload.run names fuel
    · obtain ⟨rfl, rfl⟩ := Progress.finished.inj (hrun₁.symm.trans hfinished)
      refine ⟨n, m₁'.ended _, (Machine.run_eq_finished_iff names).mpr ⟨m₁', ?_, rfl⟩, hsame hm _⟩
      rw [← Nat.add_zero n, hleads 0, Config.run_nil]
    · rw [hrunning] at hfinished
      cases hfinished
  · obtain ⟨m₁', hfinished', rfl⟩ := (Machine.run_eq_finished_iff names).mp hrun'
    obtain ⟨result₁, m₁, n, m₂', hrun₁, hleads, hm⟩ | ⟨c₁, n, c₁', -, hrunning', hle, -⟩ :=
      hload.run names fuel'
    · -- Both numbers of steps are enough for the second run, so it has the one result.
      have hend : (start.load p').run names (n + fuel') = .finished result₁ m₂' := by
        rw [hleads fuel', Config.run_nil]
      have hend' : (start.load p').run names (n + fuel') = .finished result m₁' := by
        rw [Nat.add_comm]
        exact Config.run_finished hfinished' n
      obtain ⟨rfl, rfl⟩ := Progress.finished.inj (hend.symm.trans hend')
      exact ⟨fuel', m₁.ended _, (Machine.run_eq_finished_iff names).mpr ⟨m₁, hrun₁, rfl⟩, hsame hm _⟩
    · -- The second run would still go on after more steps than it took to end.
      obtain ⟨more, rfl⟩ := Nat.exists_eq_add_of_le hle
      rw [Config.run_finished hfinished' more] at hrunning'
      cases hrunning'
  -- Wherever the first run has come, the second stands at a point with the same lines.
  · simp only [run, Machine.printer_run]
    obtain ⟨result, m, n, m', hrun, hleads, hm⟩ | ⟨c₁, n, c₁', hrun, hrun', -, hnests⟩ :=
      hload.run names fuel
    · refine ⟨n, ?_⟩
      rw [hrun, ← Nat.add_zero n, hleads 0, Config.run_nil]
      exact hm.printer
    · refine ⟨n, ?_⟩
      rw [hrun, hrun']
      cases hnests with
      | mk _ _ hm => exact hm.printer
  -- The first run is followed for as many steps, in which the second has gone further or ended.
  · simp only [run, Machine.printer_run]
    refine ⟨fuel', ?_⟩
    obtain ⟨result, m, n, m', hrun, hleads, hm⟩ | ⟨c₁, n, c₁', hrun, hrun', hle, hnests⟩ :=
      hload.run names fuel'
    · have hprecedes := (start.load p').precedes_run names fuel' n
      rw [Nat.add_comm, hleads fuel', Config.run_nil] at hprecedes
      rw [hrun]
      exact hm.printer ▸ hprecedes
    · obtain ⟨more, rfl⟩ := Nat.exists_eq_add_of_le hle
      have hprecedes := (start.load p').precedes_run names fuel' more
      rw [hrun'] at hprecedes
      rw [hrun]
      cases hnests with
      | mk _ _ hm => exact hm.printer ▸ hprecedes

/-- An `if` with two conditions in a loop, which is left from the second body by `break`. -/
theorem elseif_runs_as_nested_in_loop :
    let x : Name := ⟨20⟩
    let names := (Interner.initial.intern "x").2
    let more : Arms := .arm (.binary .eq (.var x) (.int 2)) [.print (.var x), .breakLoop] .done
    let body (rest : Arms) : Block :=
      [.ifElse (.arm (.binary .lt (.var x) (.int 2)) [.assign x (.binary .add (.var x) (.int 1))] rest)]
    let program (rest : Arms) : Program := [.declare x (.int 0), .whileDo (.bool true) (body rest)]
    let run (fuel : Nat) (p : Program) := (Machine.initial (.buffer "") 1).run names fuel p
    ProgramNests (program more) (program (.otherwise [.ifElse more])) ∧
      ∃ fuel m, run fuel (program (.otherwise [.ifElse more])) = .finished (.ok .ok) m ∧
        m.printer.held = "2\n" := by
  intro x names more body program run
  -- Only the second condition is put into an `else` body, within the loop.
  have hnests : ProgramNests (program more) (program (.otherwise [.ifElse more])) := by
    have hmore : ArmsNests more more := .arm _ (.cons (.print _) (.cons .breakLoop .nil)) .done
    have hbody : BlockNests (body more) (body (.otherwise [.ifElse more])) :=
      .cons (.ifElse (.nest _ _ (.cons (.assign x _) .nil) hmore)) .nil
    exact .cons (.stmt (.declare x _)) (.cons (.stmt (.whileDo _ hbody)) .nil)
  have hresult : (run 50 (program more)).result? = some (.ok .ok) := by decide +kernel
  have hheld : (run 50 (program more)).machine.printer.held = "2\n" := by decide +kernel
  obtain ⟨m, hm⟩ := Progress.exists_of_result? hresult
  obtain ⟨fuel, m', hm', hprinter, -⟩ :=
    (elseif_runs_as_nested names hnests (.buffer "") 1).1 50 (.ok .ok) m hm
  refine ⟨hnests, fuel, m', hm', ?_⟩
  rw [hprinter, ← hheld, hm]
  rfl

end Silly
