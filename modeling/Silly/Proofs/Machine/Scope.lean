import Silly.Proofs.Environment.Scope
import Silly.Proofs.Machine.Limit
import Silly.Proofs.Machine.Safety

/-!
# Well-scoped programs do not fail on scopes

Whether a variable can be used is found out as a program runs. Without subroutines it can be told
beforehand, block by block. A program is *well scoped* (`Program.WellScoped`) if each name is declared
in the same or in an enclosing block before it is used, no block declares a name twice, and no variable
is used for its own first value. No run of a well-scoped program fails because a variable is not
declared, is declared already or has no value (`runs_of_wellScoped`).

The invariant of a run reads the names that are declared off the tasks (`ScopedControl`). What is left
of a block is well scoped after the names that the block has declared so far, and where the block is
left early, all tasks up to the end of its scope are dropped, whatever these names are. The frames model
the same names (`Environment.Models`). Each time a loop begins its body again, the body has a new frame
with no names, as it had the first time.
-/

namespace Silly

/-! ### Well-scoped programs -/

/-- The variables that the expression reads are among the names of the stack. -/
def Expr.ScopedIn (stack : List (List Name)) (e : Expr) : Prop := ∀ x ∈ e.vars, x ∈ stack.flatten

mutual
/-- **A well-scoped statement** of a block that has declared the names `own` so far. The blocks around
it have declared `outer`, the innermost first. -/
def Stmt.WellScoped (own : List Name) (outer : List (List Name)) : Stmt → Prop
  | .assign x e => x ∈ (own :: outer).flatten ∧ e.ScopedIn (own :: outer)
  | .declare x e => x ∉ own ∧ x ∉ e.vars ∧ e.ScopedIn (own :: outer)
  | .print e => e.ScopedIn (own :: outer)
  | .ifElse arms => arms.WellScoped (own :: outer)
  | .whileDo e body | .repeatTimes e body =>
    e.ScopedIn (own :: outer) ∧ blockWellScoped [] (own :: outer) body
  | .sub .. | .call _ => False
  | .exit | .breakLoop => True

/-- Every condition and every body of a chain of arms is well scoped. -/
def Arms.WellScoped (stack : List (List Name)) : Arms → Prop
  | .done => True
  | .otherwise body => blockWellScoped [] stack body
  | .arm cond body rest =>
    cond.ScopedIn stack ∧ blockWellScoped [] stack body ∧ rest.WellScoped stack

/-- The statements of a block are well scoped, each after the names that those before it declare. -/
def blockWellScoped (own : List Name) (outer : List (List Name)) : List Stmt → Prop
  | [] => True
  | s :: ss => s.WellScoped own outer ∧ blockWellScoped (s.declares ++ own) outer ss
end

/-- **A well-scoped program.** -/
def Program.WellScoped (p : Program) : Prop := blockWellScoped [] [] p

instance (stack : List (List Name)) (e : Expr) : Decidable (e.ScopedIn stack) :=
  inferInstanceAs (Decidable (∀ x ∈ e.vars, x ∈ stack.flatten))

mutual
/-- Deciding whether a statement is well scoped. -/
def Stmt.decWellScoped (own : List Name) (outer : List (List Name)) :
    ∀ s : Stmt, Decidable (s.WellScoped own outer)
  | .assign x e =>
    inferInstanceAs (Decidable (x ∈ (own :: outer).flatten ∧ e.ScopedIn (own :: outer)))
  | .declare x e =>
    inferInstanceAs (Decidable (x ∉ own ∧ x ∉ e.vars ∧ e.ScopedIn (own :: outer)))
  | .print e => inferInstanceAs (Decidable (e.ScopedIn (own :: outer)))
  | .ifElse arms => arms.decWellScoped (own :: outer)
  | .whileDo e body | .repeatTimes e body =>
    have := decBlockWellScoped [] (own :: outer) body
    inferInstanceAs (Decidable (e.ScopedIn (own :: outer) ∧ blockWellScoped [] (own :: outer) body))
  | .sub .. | .call _ => .isFalse id
  | .exit | .breakLoop => .isTrue trivial

/-- Deciding whether a chain of arms is well scoped. -/
def Arms.decWellScoped (stack : List (List Name)) :
    ∀ arms : Arms, Decidable (arms.WellScoped stack)
  | .done => .isTrue trivial
  | .otherwise body => decBlockWellScoped [] stack body
  | .arm cond body rest =>
    have := decBlockWellScoped [] stack body
    have := rest.decWellScoped stack
    inferInstanceAs
      (Decidable (cond.ScopedIn stack ∧ blockWellScoped [] stack body ∧ rest.WellScoped stack))

/-- Deciding whether a block is well scoped. -/
def decBlockWellScoped (own : List Name) (outer : List (List Name)) :
    ∀ ss : List Stmt, Decidable (blockWellScoped own outer ss)
  | [] => .isTrue trivial
  | s :: ss =>
    have := s.decWellScoped own outer
    have := decBlockWellScoped (s.declares ++ own) outer ss
    inferInstanceAs
      (Decidable (s.WellScoped own outer ∧ blockWellScoped (s.declares ++ own) outer ss))
end

instance (p : Program) : Decidable p.WellScoped := decBlockWellScoped [] [] p

/-! ### Failures of scopes -/

/-- **The failures that are about scopes.** A subroutine that is defined twice is reported as a
variable that is declared twice, and counts as one. -/
def RunError.OfScopes : RunError → Prop
  | undeclaredVariable _ | alreadyDeclared _ | alreadyDefined _ | unassignedVariable _ => True
  | _ => False

/-- What stops a run is a failure of scopes. -/
def Stop.OfScopes : Stop → Prop
  | .error e => e.OfScopes
  | .fault _ => False

/-- **An outcome that is no failure of scopes.** -/
def ScopeFree {α : Type} (r : Outcome α) : Prop := Raises (fun s => ¬ s.OfScopes) r

theorem not_ofScopes_of_ofValues (e : RunError) (h : e.OfValues) : ¬ (Stop.error e).OfScopes := by
  intro hscopes
  cases e <;> first | exact h | exact hscopes

theorem not_ofScopes_fault (f : Fault) : ¬ (Stop.fault f).OfScopes := id

variable (names : Interner)

/-- **An expression whose variables have values** does not fail on scopes. -/
theorem Machine.scopeFree_eval {m : Machine} {e : Expr}
    (he : ∀ x ∈ e.vars, ∃ v, m.env.lookup x = .ok v) : ScopeFree (m.eval names e).1 := by
  -- A literal may have no text and a handle no string, but these are faults.
  refine e.raises_eval not_ofScopes_of_ofValues (raises_text not_ofScopes_fault)
    (fun x _ => raises_resolve not_ofScopes_fault names x) (fun x hx => ?_) m.heap
  obtain ⟨v, hv⟩ := he x hx
  rw [hv]
  exact raises_ok v

/-! ### The invariant -/

/-- **Tasks that are well scoped** in a block that has declared `own`, inside blocks that have declared
`outer`. What comes after the rest of a block does not depend on what the block declares. -/
inductive ScopedControl : List Name → List (List Name) → List Task → Prop
  | nil {own : List Name} {outer : List (List Name)} : ScopedControl own outer []
  | run {own : List Name} {outer : List (List Name)} {ss : List Stmt} {k : List Task} :
      blockWellScoped own outer ss → (∀ own', ScopedControl own' outer k) →
      ScopedControl own outer (.run ss :: k)
  | leaveScope {own own' : List Name} {outer : List (List Name)} {k : List Task} :
      ScopedControl own' outer k → ScopedControl own (own' :: outer) (.leaveScope :: k)
  | whileDo {own : List Name} {outer : List (List Name)} {cond : Expr} {body : Block}
      {k : List Task} : cond.ScopedIn (own :: outer) → blockWellScoped [] (own :: outer) body →
      ScopedControl own outer k → ScopedControl own outer (.whileDo cond body :: k)
  | repeatTimes {own : List Name} {outer : List (List Name)} (left : Nat) {body : Block}
      {k : List Task} : blockWellScoped [] (own :: outer) body →
      ScopedControl own outer k → ScopedControl own outer (.repeatTimes left body :: k)

/-- **A point of a run that has not failed on scopes.** Unless it was stopped by something else, the
tasks are well scoped, and the frames model the names that they go by. -/
inductive Config.Scoped : Config → Prop
  | going {status : Status} {own : List Name} {outer : List (List Name)} {k : List Task}
      {m : Machine} : ScopedControl own outer k → m.env.Models (own :: outer) →
      Scoped ⟨.ok status, k, m⟩
  | stopped {s : Stop} {k : List Task} {m : Machine} : ¬ s.OfScopes → Scoped ⟨.error s, k, m⟩

section Step

variable {own : List Name} {outer : List (List Name)} {k : List Task} {m : Machine}

/-! ### Statements -/

/-- **A body** begins with a scope of its own, in which nothing is declared. -/
theorem scoped_enterBlock (hk : ScopedControl own outer k) (hm : m.env.Models (own :: outer))
    {body : Block} (hbody : blockWellScoped [] (own :: outer) body) :
    (enterBlock body k m).Scoped :=
  .going (.run hbody fun _ => .leaveScope hk) hm.beginScope

/-- An assignment evaluates and stores, and a name that is declared can be stored in. -/
theorem scoped_assign (hk : ScopedControl own outer k) (hm : m.env.Models (own :: outer)) {x : Name}
    (hx : x ∈ (own :: outer).flatten) {e : Expr} (he : e.ScopedIn (own :: outer)) :
    (Machine.assign names x e k m).Scoped := by
  have heval := m.scopeFree_eval names fun y hy => hm.lookup (he y hy)
  have henv : (m.eval names e).2.env = m.env := rfl
  unfold Machine.assign
  -- The variable is declared, so nothing is refused before the value is there.
  rw [hm.isDeclared hx]
  dsimp only
  unfold Machine.evalStore
  revert heval henv
  obtain ⟨s | v, m₁⟩ := m.eval names e
  · exact fun heval _ => .stopped heval.of_error
  · intro _ henv
    -- The value is stored in the frame that has declared the variable.
    obtain ⟨env', hstore, hm'⟩ := hm.store hx v
    have hstored : m₁.store names x v = (.ok (), { m₁ with env := env' }) := by
      have henv₁ : m₁.env = m.env := henv
      simp only [Machine.store, henv₁, hstore, ScopeOutcome.outcome]
    simp only [hstored]
    exact .going hk hm'

/-- **A declaration.** The variable has no value yet when its first value is computed, but is not used
for it. -/
theorem scoped_declareStore {x : Name} (hk : ScopedControl (x :: own) outer k)
    (hm : m.env.Models (own :: outer)) (hx : x ∉ own) {e : Expr} (hxe : x ∉ e.vars)
    (he : e.ScopedIn (own :: outer)) : (Machine.declareStore names x e k m).Scoped := by
  -- The declaration succeeds, since the block has not declared the name before.
  obtain ⟨env₁, hdeclare, hothers, hstore⟩ := hm.declare hx
  have hdeclared : m.declare names x = (.ok (), { m with env := env₁ }) := by
    simp only [Machine.declare, hdeclare, ScopeOutcome.outcome]
  -- What is evaluated reads other variables only, and these are what they were before.
  have heval : ScopeFree (({ m with env := env₁ } : Machine).eval names e).1 := by
    refine Machine.scopeFree_eval names fun y hy => ?_
    have hne : y ≠ x := fun h => hxe (h ▸ hy)
    obtain ⟨v, hv⟩ := hm.lookup (he y hy)
    exact ⟨v, (hothers y hne).trans hv⟩
  have henv : (({ m with env := env₁ } : Machine).eval names e).2.env = env₁ := rfl
  simp only [Machine.declareStore, hdeclared, Machine.evalStore]
  revert heval henv
  obtain ⟨s | v, m₂⟩ := ({ m with env := env₁ } : Machine).eval names e
  · exact fun heval _ => .stopped heval.of_error
  · intro _ henv
    -- Now the variable is given its value, and the frames model the names with it.
    obtain ⟨env₂, hstored, hm₂⟩ := hstore v
    have hstored' : m₂.store names x v = (.ok (), { m₂ with env := env₂ }) := by
      have henv₂ : m₂.env = env₁ := henv
      simp only [Machine.store, henv₂, hstored, ScopeOutcome.outcome]
    simp only [hstored']
    exact .going hk hm₂

/-- **A `print`** evaluates, and no scope has a part in making the line. -/
theorem scoped_printValue (hk : ScopedControl own outer k) (hm : m.env.Models (own :: outer))
    {e : Expr} (he : e.ScopedIn (own :: outer)) : (Machine.printValue names e k m).Scoped := by
  have heval := m.scopeFree_eval names fun y hy => hm.lookup (he y hy)
  have henv : (m.eval names e).2.env = m.env := rfl
  unfold Machine.printValue
  revert heval henv
  obtain ⟨s | v, m₁⟩ := m.eval names e
  · exact fun heval _ => .stopped heval.of_error
  · intro _ henv
    have hline : ScopeFree (v.printed m₁.heap) :=
      v.raises_printed (raises_text not_ofScopes_fault) m₁.heap
    have henv₁ : m₁.env = m.env := henv
    -- The evaluation leaves the frames as they were.
    rw [← henv₁] at hm
    dsimp only
    revert hline
    cases v.printed m₁.heap with
    | error s => exact fun hline => .stopped hline.of_error
    | ok line => exact fun _ => .going hk hm

/-- **A `repeat`** evaluates its count, and leaves a body to be run in scopes of its own. -/
theorem scoped_beginRepeat (hk : ScopedControl own outer k) (hm : m.env.Models (own :: outer))
    {count : Expr} (hcount : count.ScopedIn (own :: outer)) {body : Block}
    (hbody : blockWellScoped [] (own :: outer) body) :
    (Machine.beginRepeat names count body k m).Scoped := by
  have heval := m.scopeFree_eval names fun y hy => hm.lookup (hcount y hy)
  have henv : (m.eval names count).2.env = m.env := rfl
  unfold Machine.beginRepeat
  revert heval henv
  obtain ⟨s | v, m₁⟩ := m.eval names count
  · exact fun heval _ => .stopped heval.of_error
  · intro _ henv
    have hn : ScopeFree (v.toInt .repeatCount) :=
      v.raises_toInt not_ofScopes_of_ofValues .repeatCount
    have henv₁ : m₁.env = m.env := henv
    rw [← henv₁] at hm
    dsimp only
    revert hn
    -- A count that is no integer is another failure.
    cases v.toInt .repeatCount with
    | error s => exact fun hn => .stopped hn.of_error
    | ok n => exact fun _ => .going (.repeatTimes _ hbody hk) hm

/-- **A condition** is found, or what stops it is no failure of scopes. The frames stay as they are. -/
theorem scoped_test (hm : m.env.Models (own :: outer)) (operation : Operation) {cond : Expr}
    (hcond : cond.ScopedIn (own :: outer)) :
    ScopeFree (m.test names operation cond).1 ∧
      (m.test names operation cond).2.env.Models (own :: outer) := by
  have heval := m.scopeFree_eval names fun y hy => hm.lookup (hcond y hy)
  refine ⟨?_, hm⟩
  exact heval.bind fun v => v.raises_toBool not_ofScopes_of_ofValues operation

/-- **A chain of arms** tests its conditions in the scopes around it. -/
theorem Arms.scoped_start (hk : ScopedControl own outer k) : ∀ (arms : Arms) {m : Machine},
    arms.WellScoped (own :: outer) → m.env.Models (own :: outer) → (arms.start names k m).Scoped
  | .done, _, _, hm => .going hk hm
  | .otherwise _, _, hbody, hm => scoped_enterBlock hk hm hbody
  | .arm cond body rest, m, harms, hm => by
    obtain ⟨htest, hm₁⟩ := scoped_test names hm .ifCondition harms.1
    rw [Arms.start]
    revert htest hm₁
    obtain ⟨s | (_ | _), m₁⟩ := m.test names .ifCondition cond
    -- The test stops it for another reason, or it fails, or it holds.
    · exact fun htest _ => .stopped htest.of_error
    · exact fun _ hm₁ => rest.scoped_start hk harms.2.2 hm₁
    · exact fun _ hm₁ => scoped_enterBlock hk hm₁ harms.2.1

/-- **A well-scoped statement** does not fail on scopes, and declares what it is said to. -/
theorem Stmt.scoped_start {s : Stmt} (hs : s.WellScoped own outer)
    (hk : ScopedControl (s.declares ++ own) outer k) (hm : m.env.Models (own :: outer)) :
    (s.start names k m).Scoped := by
  -- What the statement asks for is in its condition of being well scoped, part by part.
  cases s with
  | assign x e => exact scoped_assign names hk hm hs.1 hs.2
  | declare x e => exact scoped_declareStore names hk hm hs.1 hs.2.1 hs.2.2
  | print e => exact scoped_printValue names hk hm hs
  | ifElse arms => exact arms.scoped_start names hk hs hm
  | whileDo cond body => exact .going (.whileDo hs.1 hs.2 hk) hm
  | repeatTimes count body => exact scoped_beginRepeat names hk hm hs.1 hs.2
  -- Subroutines do not occur in a well-scoped program.
  | sub x body => exact hs.elim
  | call x => exact hs.elim
  | exit => exact .going hk hm
  | breakLoop => exact .going hk hm

/-! ### Tasks -/

/-- **A `while`** tests in the scopes around it, and its body begins anew each time. -/
theorem scoped_step_whileDo {status : Status} {cond : Expr} {body : Block}
    (hcond : cond.ScopedIn (own :: outer)) (hbody : blockWellScoped [] (own :: outer) body)
    (hk : ScopedControl own outer k) (hm : m.env.Models (own :: outer)) :
    ((Task.whileDo cond body).step names (.ok status) k m).Scoped := by
  -- After a break or an exit the loop is over, and its scope has ended.
  cases status with
  | ok =>
    obtain ⟨htest, hm₁⟩ := scoped_test names hm .whileCondition hcond
    simp only [Task.step]
    revert htest hm₁
    obtain ⟨s | (_ | _), m₁⟩ := m.test names .whileCondition cond
    · exact fun htest _ => .stopped htest.of_error
    · exact fun _ hm₁ => .going hk hm₁
    · exact fun _ hm₁ => scoped_enterBlock (.whileDo hcond hbody hk) hm₁ hbody
  | «break» => exact .going hk hm
  | exit => exact .going hk hm

/-- **A step** of a well-scoped point leads to one, or stops for another reason. -/
theorem Task.scoped_step {task : Task} {signal : Outcome Status}
    (h : Config.Scoped ⟨signal, task :: k, m⟩) : (task.step names signal k m).Scoped := by
  -- A point that was stopped stays so. At any other, the first task decides.
  cases h with
  | @stopped s _ _ hs =>
    obtain ⟨m', hstep, -⟩ := task.step_error names s k m
    rw [hstep]
    exact .stopped hs
  | @going status own outer _ _ hcontrol hm =>
    cases hcontrol with
    | @run _ _ ss _ hss hk =>
      cases status with
      | ok =>
        cases ss with
        | nil => exact .going (hk own) hm
        | cons s rest => exact Stmt.scoped_start names hss.1 (.run hss.2 hk) hm
      -- What is left of the block is dropped, and so is what it would have declared.
      | «break» => exact .going (hk own) hm
      | exit => exact .going (hk own) hm
    -- The scope that ends is the one of the block, whatever it has declared.
    | leaveScope hk => exact .going hk hm.endScope
    | whileDo hcond hbody hk => exact scoped_step_whileDo names hcond hbody hk hm
    | @repeatTimes _ _ left body _ hbody hk =>
      cases status with
      | ok =>
        cases left with
        | zero => exact .going hk hm
        | succ left => exact scoped_enterBlock (.repeatTimes left hbody hk) hm hbody
      | «break» => exact .going hk hm
      | exit => exact .going hk hm

end Step

/-! ### Runs -/

/-- What a well-scoped point was stopped by, if it was. -/
theorem Config.Scoped.signal {c : Config} (hc : c.Scoped) : ScopeFree c.signal := by
  cases hc with
  | going => exact raises_ok _
  | stopped hs => exact raises_error hs

/-- **No point of a run fails on scopes** if the first one is well scoped. -/
theorem Config.Scoped.run {c : Config} (hc : c.Scoped) (fuel : Nat) :
    ScopeFree (c.run names fuel).signal := by
  obtain ⟨c', hrun, hc'⟩ | ⟨result, m, hrun, hm⟩ :=
    Config.run_invariant names (fun _ _ _ _ h => Task.scoped_step names h) fuel hc
  · rw [hrun]
    exact hc'.signal
  · rw [hrun]
    exact hm.signal

/-- **A well-scoped program** is started at a well-scoped point. -/
theorem Program.WellScoped.load {p : Program} (hp : p.WellScoped) (printer : Printer)
    (maxCalls : Nat) (log : List Event) :
    (({ Machine.initial printer maxCalls with log := log } : Machine).load p).Scoped :=
  .going (.run hp fun _ => .nil) .initial

/-- **A well-scoped program never fails on scopes.** At no point of a run of its tree has a statement
come to a variable that is not declared, that is declared already or that has no value, and no source
that is read into the tree is reported to fail in this way. -/
theorem runs_of_wellScoped {p : Program} (hp : p.WellScoped) :
    (∀ names printer maxCalls log fuel e,
      ((({ Machine.initial printer maxCalls with log := log } : Machine).load p).run names
        fuel).signal = .error (.error e) → ¬ e.OfScopes) ∧
    ∀ source names, parse source .initial = (.ok p, names) → ∀ options printer fuel report e,
      runSource fuel source options printer = some report → report.result = .error (.run e) →
        ¬ e.OfScopes := by
  refine ⟨fun names printer maxCalls log fuel e h => ?_,
    fun source names hread options printer fuel report e hreport he => ?_⟩
  -- The first part is about the tree, the second about a source that is read into it.
  · exact (hp.load printer maxCalls log).run names fuel _ h
  · obtain ⟨log, hload⟩ := load_of_parse hread options printer
    have hrun := (hp.load printer options.maxCalls log).run names fuel
    rw [runSource, hload] at hreport
    dsimp only at hreport
    generalize (({ Machine.initial printer options.maxCalls with log := log } : Machine).load
      p).run names fuel = progress at hrun hreport
    -- Only a run that has ended is reported, and its failure is what it has ended with.
    cases progress with
    | running c => cases hreport
    | finished result m =>
      cases hreport
      cases result with
      | ok status => cases he
      | error s =>
        cases s with
        | fault f => cases he
        | error e' =>
          cases he
          exact hrun.of_error

/-- A loop whose body declares a variable each time, hides another one and is left by `break`. After
it a division fails. -/
theorem runs_of_wellScoped_loop :
    let source := "var x gets 0 while true do var y gets (x + 1) x gets y
      if (x = 3) then var y gets x print y break endif endwhile print (x / 0)"
    ∃ p, (parse source .initial).1 = .ok p ∧ Program.WellScoped p ∧
      ∃ report e, runSource 100 source .default (.buffer "") = some report ∧
        report.printer.held = "3\n" ∧ report.result = .error (.run e) ∧ ¬ e.OfScopes := by
  intro source
  have hp : ((parse source .initial).1.toOption.map fun p => decide (Program.WellScoped p)) =
      some true := by decide +kernel
  have hreport : ((runSource 100 source .default (.buffer "")).bind fun report =>
      match report.result with
      | .error (.run e) => some (report.printer.held, e)
      | _ => none) = some ("3\n", .divisionByZero .div) := by decide +kernel
  -- The source is not looked at again, since what is needed of it has been computed.
  clear_value source
  obtain ⟨p, hsome, hscoped⟩ := Option.map_eq_some_iff.mp hp
  have hparse : (parse source .initial).1 = .ok p := by
    revert hsome
    cases (parse source .initial).1 with
    | error e => exact fun h => by cases h
    | ok p => exact fun h => congrArg _ (Option.some.inj h)
  have hwell : Program.WellScoped p := of_decide_eq_true hscoped
  obtain ⟨report, hrun, hresult⟩ := Option.bind_eq_some_iff.mp hreport
  split at hresult
  · next e he =>
    obtain ⟨hheld, rfl⟩ := Prod.mk.inj (Option.some.inj hresult)
    exact ⟨p, hparse, hwell, report, _, hrun, hheld, he,
      (runs_of_wellScoped hwell).2 source _ (parse_eq_of_ok hparse) .default (.buffer "") 100 report
        _ hrun he⟩
  · cases hresult

end Silly
