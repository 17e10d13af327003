import Silly.Proofs.Environment.Filled
import Silly.Proofs.Machine.Rules

/-!
# Only an initializer sees a variable without a value

A declaration puts its variable in the innermost frame before its first value is computed, so there is a
moment in each declaration at which a variable has no value. It is the only one. If the value can be
computed, it is stored before the step is over, and if it cannot, the run was stopped and does not go on.
So at every point of a run that was not stopped, every variable of every live frame has a value, the
frames that cannot be seen among them, and however statements were left (`Config.filled_run`).

Hence no expression but the initializer of a declaration can come to a variable without a value, and it
can come to none but the one that is being declared (`Task.Leaves.filled`).
-/

namespace Silly

/-- The variable with the text `t` has no value. -/
def Stop.unassigned (t : String) : Stop := .error (.unassignedVariable t)

variable {names : Interner} {m m₁ m' : Machine} {e : Expr} {t : String}

/-! ### Failing for want of a value -/

section Fails

/-- **An outcome that is no failure for want of a value.** -/
def Valued {α : Type} (r : Outcome α) : Prop := Raises (fun s => ∀ t, s ≠ .unassigned t) r

theorem ne_unassigned_of_ofValues (e : RunError) (h : e.OfValues) (t : String) :
    Stop.error e ≠ .unassigned t := by
  rintro ⟨⟩
  exact h

theorem ne_unassigned_fault (f : Fault) (t : String) : Stop.fault f ≠ .unassigned t := nofun

theorem valued_resolve (x : Name) : Valued (names.resolve x) :=
  raises_resolve ne_unassigned_fault names x

theorem valued_printed (h : Heap) (v : Value) : Valued (v.printed h) :=
  v.raises_printed (raises_text ne_unassigned_fault) h

theorem valued_toInt (operation : Operation) (v : Value) : Valued (v.toInt operation) :=
  v.raises_toInt ne_unassigned_of_ofValues operation

theorem valued_toBool (operation : Operation) (v : Value) : Valued (v.toBool operation) :=
  v.raises_toBool ne_unassigned_of_ofValues operation

/-- **An operation on scopes that fails for want of a value** has found a variable without one. -/
theorem ScopeOutcome.of_outcome_unassigned {α : Type} {r : ScopeOutcome α}
    (h : r.outcome names = .error (.unassigned t)) :
    ∃ x, r = .error (.error (.unassigned x)) ∧ names.text? x = some t := by
  rcases r with (scopeError | f) | a
  · have hstop : scopeError.stop names = .unassigned t := Except.error.inj h
    unfold ScopeError.stop Interner.resolve at hstop
    -- The complaint has the text of its variable, if there is one, and only one kind of complaint is
    -- meant.
    cases hx : names.text? scopeError.name with
    | none =>
      rw [hx] at hstop
      cases hstop
    | some text =>
      rw [hx] at hstop
      cases scopeError with
      | unassigned x =>
        cases hstop
        exact ⟨x, rfl, hx⟩
      | undeclared x | alreadyDeclared x => cases hstop
  · cases h
  · cases h

/-- A variable that is not declared is another failure. -/
theorem ne_unassigned_undeclared (x : Name) (t : String) :
    (ScopeError.undeclared x).stop names ≠ .unassigned t := by
  intro h
  have hr : ScopeOutcome.outcome (α := Unit) names (.error (.error (.undeclared x))) =
      .error (.unassigned t) := congrArg _ h
  obtain ⟨y, hy, -⟩ := ScopeOutcome.of_outcome_unassigned hr
  cases hy

/-- A declaration does not look for a value, and neither does storing one. -/
theorem Machine.valued_declare (m : Machine) (x : Name) : Valued (m.declare names x).1 := by
  intro s hs t hst
  obtain ⟨y, hy, -⟩ := ScopeOutcome.of_outcome_unassigned (hs.trans (congrArg _ hst))
  have hdeclare : (m.env.declare x).1 ≠ .error (.error (.unassigned y)) := by
    unfold Environment.declare
    split
    all_goals nofun
  exact hdeclare hy

theorem Machine.valued_store (m : Machine) (x : Name) (v : Value) :
    Valued (m.store names x v).1 := by
  intro s hs t hst
  obtain ⟨y, hy, -⟩ := ScopeOutcome.of_outcome_unassigned (hs.trans (congrArg _ hst))
  have hstore : (m.env.store x v).1 ≠ .error (.error (.unassigned y)) := by
    unfold Environment.store
    split
    all_goals nofun
  exact hstore hy

/-- **An expression that fails for want of a value** reads a variable without one. -/
theorem Machine.exists_unset_of_eval (h : m.eval names e = (.error (.unassigned t), m')) :
    ∃ x ∈ e.vars, names.text? x = some t ∧ ∃ id, m.env.Unset id x := by
  let P (s : Stop) : Prop := ∀ t, s = .unassigned t →
    ∃ x ∈ e.vars, names.text? x = some t ∧ ∃ id, m.env.Unset id x
  -- Neither values nor faults are meant, so what has failed is the lookup of a variable.
  have hfault (f : Fault) : P (.fault f) := fun t ht => absurd ht (ne_unassigned_fault f t)
  have hvalues (error : RunError) (he : error.OfValues) : P (.error error) :=
    fun t ht => absurd ht (ne_unassigned_of_ofValues error he t)
  have hlookup (x : Name) (hx : x ∈ e.vars) : Raises P ((m.env.lookup x).outcome names) := by
    intro s hs t ht
    -- The lookup of `x` has failed, so it is `x` itself that has no value.
    obtain ⟨y, hy, htext⟩ := ScopeOutcome.of_outcome_unassigned (hs.trans (congrArg _ ht))
    obtain ⟨rfl, id, -, hunset⟩ := Environment.exists_unset_of_lookup hy
    exact ⟨y, hx, htext, id, hunset⟩
  have hraises : Raises P (m.eval names e).1 :=
    e.raises_eval hvalues (raises_text hfault) (fun x _ => raises_resolve hfault names x) hlookup
      m.heap
  exact hraises _ (congrArg Prod.fst h) t rfl

end Fails

/-! ### Where every variable has a value -/

section Filled

variable {task : Task} {signal : Outcome Status} {ts : List Task} {x : Name} {status status' : Status}

/-- **Where every variable has a value**, no evaluation fails for want of one. -/
theorem Machine.valued_eval (h : m.env.Filled) (e : Expr) : Valued (m.eval names e).1 := by
  intro s hs t hst
  have heval : m.eval names e = (.error (.unassigned t), (m.eval names e).2) :=
    Prod.ext (hs.trans (congrArg _ hst)) rfl
  obtain ⟨x, -, -, id, hunset⟩ := exists_unset_of_eval heval
  exact h.not_unset id x hunset

theorem Machine.valued_test (h : m.env.Filled) (operation : Operation) (e : Expr) :
    Valued (m.test names operation e).1 :=
  (valued_eval h e).bind fun v => valued_toBool operation v

/-- **A value that is stored** goes to the only place where there was none, if there was one. -/
theorem Machine.Stores.filled (h : m.Stores names x e (.ok status) m') (htidy : m.env.Tidy)
    (hunset : ∀ place y, m.env.Unset place y → m.env.find x = .ok (some place) ∧ y = x) :
    m'.env.Filled := by
  cases h with
  | @stored v m₁ _ heval hstore =>
    obtain ⟨heap, rfl⟩ := eq_of_eval heval
    -- The variable was found without a value, and now it has one.
    have hstored := store_of_ok hstore
    exact Environment.filled_of_store htidy hunset hstored

/-- Storing fails for want of a value only if the evaluation does. -/
theorem Machine.Stores.unassigned (h : m.Stores names x e (.error (.unassigned t)) m') :
    ∃ m₁, m.eval names e = (.error (.unassigned t), m₁) := by
  generalize hs : Except.error (Stop.unassigned t) = signal at h
  cases h with
  | unevaluated heval =>
    cases hs
    exact ⟨_, heval⟩
  | @unstored v s m₁ _ heval hstore =>
    cases hs
    exact absurd rfl (m₁.valued_store x v _ (congrArg Prod.fst hstore) t)
  | stored => cases hs

/-- **The arms of an `if`** open a frame at most, and a new frame has no variables. -/
theorem Arms.Leaves.filled {arms : Arms} (h : arms.Leaves names m signal ts m')
    (hm : m.env.Filled) : m'.env.Filled ∧ Valued signal := by
  induction h with
  | done => exact ⟨hm, raises_ok _⟩
  | @otherwise m body => exact ⟨hm.opened m.env.current, raises_ok _⟩
  | @untested m m₁ cond body rest s htest =>
    have hs := Machine.valued_test hm _ cond s (congrArg Prod.fst htest)
    obtain ⟨heap, rfl⟩ := Machine.eq_of_test htest
    exact ⟨hm, raises_error hs⟩
  | @holds m m₁ cond body rest htest =>
    obtain ⟨heap, rfl⟩ := Machine.eq_of_test htest
    exact ⟨hm.opened m.env.current, raises_ok _⟩
  | @fails m m₁ m' cond body rest signal ts htest _ ih =>
    obtain ⟨heap, rfl⟩ := Machine.eq_of_test htest
    exact ih hm

/-- **A call** opens a frame at most. -/
theorem Machine.Invokes.filled {name : String} {sub : Option Subroutine}
    (h : m.Invokes name sub signal ts m') (hm : m.env.Filled) :
    m'.env.Filled ∧ Valued signal := by
  cases h with
  | undefined => exact ⟨hm, raises_error nofun⟩
  | limited => exact ⟨hm, raises_error nofun⟩
  | unscoped _ hscope =>
    obtain ⟨⟨f, rfl⟩, rfl⟩ := eq_of_enterScopeIn_error hscope
    exact ⟨hm, raises_error (ne_unassigned_fault f)⟩
  | @entered sub m₁ _ hscope =>
    obtain ⟨-, rfl⟩ := eq_of_enterScopeIn hscope
    exact ⟨hm.opened sub.scope, raises_ok _⟩

/-- **What is known after a statement** that began where every variable had a value. -/
structure Stmt.Fills (names : Interner) (s : Stmt) (signal : Outcome Status) (m' : Machine) :
    Prop where
  /-- Unless it has failed, every variable has a value again. -/
  filled : ∀ status, signal = .ok status → m'.env.Filled
  /-- A declaration is the one statement that can fail for want of a value, that of its variable. -/
  unassigned : ∀ t, signal = .error (.unassigned t) →
    ∃ x e, s = .declare x e ∧ names.text? x = some t ∧ x ∈ e.vars

theorem Stmt.Fills.of_valued {s : Stmt} (hm : m'.env.Filled) (hsignal : Valued signal) :
    s.Fills names signal m' where
  filled _ _ := hm
  unassigned t ht := absurd rfl (hsignal _ ht t)

theorem Stmt.Fills.failed {s : Stmt} {stop : Stop} (hstop : ∀ t, stop ≠ .unassigned t) :
    s.Fills names (.error stop) m' where
  filled _ h := by cases h
  unassigned t ht := absurd (Except.error.inj ht) (hstop t)

/-- **An assignment** stores its value where every variable has one. -/
theorem fills_assign (hm : m.env.Filled) (h : m.Stores names x e signal m') :
    (Stmt.assign x e).Fills names signal m' where
  filled status hstatus := by
    subst hstatus
    exact h.filled hm.tidy fun place y hy => absurd hy (hm.not_unset place y)
  unassigned t ht := by
    subst ht
    obtain ⟨m₁, heval⟩ := h.unassigned
    exact absurd rfl (Machine.valued_eval hm e _ (congrArg Prod.fst heval) t)

/-- **A declaration** computes its value where its variable is the only one that has none. -/
theorem fills_declare (hm : m.env.Filled) (hdeclare : m.declare names x = (.ok (), m₁))
    (h : m₁.Stores names x e signal m') : (Stmt.declare x e).Fills names signal m' := by
  -- The declaration has added the one variable that has no value, in the innermost frame.
  obtain ⟨htidy, hfind, hunset⟩ := hm.unset_declare (Machine.declare_of_ok hdeclare)
  refine ⟨fun status hstatus => ?_, fun t ht => ?_⟩
  · subst hstatus
    refine h.filled htidy fun place y hy => ?_
    obtain ⟨rfl, rfl⟩ := hunset place y hy
    exact ⟨hfind, rfl⟩
  · subst ht
    obtain ⟨m₂, heval⟩ := h.unassigned
    -- The initializer has come to a variable without a value, and this can only be that one.
    obtain ⟨y, hy, htext, id, hid⟩ := Machine.exists_unset_of_eval heval
    obtain ⟨-, rfl⟩ := hunset id y hid
    exact ⟨y, e, rfl, htext, hy⟩

/-- **Every statement** leaves the variables as it found them, each with a value. -/
theorem Stmt.Leaves.fills {s : Stmt} (h : s.Leaves names m signal ts m') (hm : m.env.Filled) :
    s.Fills names signal m' := by
  cases h with
  | assign _ hstores => exact fills_assign hm hstores
  | declare hdeclare hstores => exact fills_declare hm hdeclare hstores
  | ifElse harms => exact .of_valued (harms.filled hm).1 (harms.filled hm).2
  | call _ hinvokes =>
    have hcalled := hinvokes.filled hm
    exact .of_valued hcalled.1 hcalled.2
  | print heval =>
    obtain ⟨heap, rfl⟩ := Machine.eq_of_eval heval
    exact .of_valued hm (raises_ok _)
  | repeatTimes heval =>
    obtain ⟨heap, rfl⟩ := Machine.eq_of_eval heval
    exact .of_valued hm (raises_ok _)
  | whileDo | sub | exit | breakLoop => exact .of_valued hm (raises_ok _)
  -- What is left are the ways to fail.
  | assignUnfound => exact .failed (ne_unassigned_fault _)
  | assignUndeclared => exact .failed (ne_unassigned_undeclared _)
  | @undeclared x e s m₁ hdeclare =>
    exact .failed (m.valued_declare x s (congrArg Prod.fst hdeclare))
  | @unevaluated e s m₁ heval =>
    exact .failed (Machine.valued_eval hm e s (congrArg Prod.fst heval))
  | @uncounted count body s m₁ heval =>
    exact .failed (Machine.valued_eval hm count s (congrArg Prod.fst heval))
  | @unprinted e v s m₁ _ hline => exact .failed (valued_printed _ v s hline)
  | @countless count body v s m₁ _ hn => exact .failed (valued_toInt _ v s hn)
  | subUnnamed hx => exact .failed (valued_resolve _ _ hx)
  | callUnnamed hx => exact .failed (valued_resolve _ _ hx)
  | subDefined => exact .failed nofun

/-- **A step** after which the run goes on leaves every variable with a value, and one that fails for
want of a value is that of a declaration. -/
theorem Task.Leaves.filled (h : task.Leaves names m (.ok status) signal ts m')
    (hm : m.env.Filled) :
    (∀ status', signal = .ok status' → m'.env.Filled) ∧
      ∀ t, signal = .error (.unassigned t) → ∃ x e rest, status = .ok ∧
        task = .run (.declare x e :: rest) ∧ names.text? x = some t ∧ x ∈ e.vars := by
  -- A task that begins no statement can only fail in the test of its condition.
  -- So of all other tasks both parts are known at once.
  have hplain {signal : Outcome Status} {m' : Machine} (hm' : m'.env.Filled)
      (hsignal : Valued signal) : (∀ status', signal = .ok status' → m'.env.Filled) ∧
      ∀ t, signal = .error (.unassigned t) → ∃ x e rest, status = .ok ∧
        task = .run (.declare x e :: rest) ∧ names.text? x = some t ∧ x ∈ e.vars :=
    ⟨fun _ _ => hm', fun t ht => absurd rfl (hsignal _ ht t)⟩
  cases h with
  | @start s rest _ ts _ hs =>
    obtain ⟨hfilled, hunassigned⟩ := hs.fills hm
    refine ⟨hfilled, fun t ht => ?_⟩
    obtain ⟨x, e, rfl, htext, hx⟩ := hunassigned t ht
    exact ⟨x, e, rest, rfl, rfl, htext, hx⟩
  | leaveScope => exact hplain hm.endScope (raises_ok _)
  | leaveCall | ended | dropped => exact hplain hm (raises_ok _)
  | @whileUntested cond body s m₁ htest =>
    have hs := Machine.valued_test hm _ cond s (congrArg Prod.fst htest)
    obtain ⟨heap, rfl⟩ := Machine.eq_of_test htest
    exact hplain hm (raises_error hs)
  | whileAgain htest =>
    obtain ⟨heap, rfl⟩ := Machine.eq_of_test htest
    exact hplain (hm.opened m.env.current) (raises_ok _)
  | whileOver htest =>
    obtain ⟨heap, rfl⟩ := Machine.eq_of_test htest
    exact hplain hm (raises_ok _)
  | repeatAgain => exact hplain (hm.opened m.env.current) (raises_ok _)
  | whileBreak | whileLeft | repeatOver | repeatBreak | repeatLeft => exact hplain hm (raises_ok _)

end Filled

/-! ### Runs -/

/-- **Wherever a run has come to without an error**, every variable of every live frame has a value, if
it was so where the run began. -/
theorem Config.filled_run (names : Interner) {c : Config} (hc : c.machine.env.Filled) (fuel : Nat)
    {status : Status} (h : (c.run names fuel).signal = .ok status) :
    (c.run names fuel).machine.env.Filled := by
  -- The invariant asks for nothing where the run was stopped.
  let P (signal : Outcome Status) (_ : List Task) (m : Machine) : Prop :=
    ∀ status, signal = .ok status → m.env.Filled
  have hstep (task : Task) (k : List Task) (signal : Outcome Status) (m : Machine)
      (signal' : Outcome Status) (ts : List Task) (m' : Machine) (hP : P signal (task :: k) m)
      (hleaves : task.Leaves names m signal signal' ts m') : P signal' (ts ++ k) m' := by
    cases signal with
    | ok status => exact (hleaves.filled (hP status rfl)).1
    | error s =>
      -- The run was stopped before, and stays so.
      obtain rfl := hleaves.of_error
      intro status hstatus
      cases hstatus
  have hrun := Config.run_preserves names (P := P) hstep fuel fun _ _ => hc
  exact hrun status h

/-- **Only an initializer sees a variable without a value.** A run of a program from the start is looked
at, at any point of it. If the run was not stopped, every variable of every live frame has a value there.
So it is where a statement has finished that began at a point of the run, however deep inside others, and
with whatever status it has finished. If the run was stopped because a variable has no value, it was
stopped by the declaration of this variable, in which the variable is read. -/
theorem only_initializers_see_unassigned (names : Interner) (p : Program) (printer : Printer)
    (maxCalls : Nat) (log : List Event) :
    let run (fuel : Nat) :=
      (({ Machine.initial printer maxCalls with log := log } : Machine).load p).run names fuel
    (∀ fuel status, (run fuel).signal = .ok status → (run fuel).machine.env.Filled) ∧
    (∀ fuel s rest k m, run fuel = .running ⟨.ok .ok, .run (s :: rest) :: k, m⟩ →
      ∀ fuel' status m', m.execute names fuel' s = .finished (.ok status) m' →
        m'.env.Filled) ∧
    ∀ fuel t, (run fuel).signal = .error (.error (.unassignedVariable t)) →
      ∃ n < fuel, ∃ x e rest k m, run n = .running ⟨.ok .ok, .run (.declare x e :: rest) :: k, m⟩ ∧
        ((Stmt.declare x e).start names (.run rest :: k) m).signal =
          .error (.error (.unassignedVariable t)) ∧
        names.text? x = some t ∧ x ∈ e.vars := by
  intro run
  have hfilled (fuel : Nat) (status : Status) (h : (run fuel).signal = .ok status) :
      (run fuel).machine.env.Filled :=
    Config.filled_run names Environment.filled_initial fuel h
  -- The first part is the invariant, the second is the same for the run of one statement.
  refine ⟨hfilled, fun fuel s rest k m hm fuel' status m' hs => ?_, fun fuel t h => ?_⟩
  · have hpoint := hfilled fuel .ok (by rw [hm]; rfl)
    rw [hm] at hpoint
    -- The statement runs alone here, from a machine that is full.
    have hrun : (m.load [s]).run names fuel' = .finished (.ok status) m' := hs
    have hsignal : ((m.load [s]).run names fuel').signal = .ok status := by rw [hrun]; rfl
    have hend := Config.filled_run names (c := m.load [s]) hpoint fuel' hsignal
    rwa [hrun] at hend
  -- The step that stopped the run is one of the rules, and this is a declaration.
  · obtain ⟨n, hn, status, task, k, m, ts, m', hpoint, hleaves, hstep⟩ :=
      Config.exists_of_run_error names rfl h
    have hpoint' : run n = .running ⟨.ok status, task :: k, m⟩ := hpoint
    have hm := hfilled n status (by rw [hpoint']; rfl)
    rw [hpoint'] at hm
    obtain ⟨x, e, rest, rfl, rfl, htext, hx⟩ := (hleaves.filled hm).2 t rfl
    have hstart : (Stmt.declare x e).start names (.run rest :: k) m = ⟨_, ts ++ k, m'⟩ := hstep
    exact ⟨n, hn, x, e, rest, k, m, hpoint', by rw [hstart], htext, hx⟩

/-- A variable is declared again inside a block, and is read there for its own first value. Before that a
loop with a variable of its own is left by `break`. -/
theorem only_initializers_see_unassigned_shadowing :
    let x : Name := ⟨20⟩
    let names := (Interner.initial.intern "x").2
    let loop : Stmt := .whileDo (.bool true) [.declare x (.int 2), .breakLoop]
    let again : Stmt := .declare x (.binary .add (.var x) (.int 1))
    let p : Program := [.declare x (.int 1), .ifElse (.otherwise [loop, again])]
    let run (fuel : Nat) := ((Machine.initial .silent 8).load p).run names fuel
    (∃ rest k m m', run 2 = .running ⟨.ok .ok, .run (loop :: rest) :: k, m⟩ ∧
      m.env.live = #[0, 1] ∧ m.execute names 9 loop = .finished (.ok .ok) m' ∧ m'.env.Filled) ∧
    (run 30).signal = .error (.error (.unassignedVariable "x")) ∧
      ∃ n < 30, ∃ y e rest k m, run n = .running ⟨.ok .ok, .run (.declare y e :: rest) :: k, m⟩ ∧
        names.text? y = some "x" ∧ y ∈ e.vars := by
  intro x names loop again p run
  have hseen := only_initializers_see_unassigned names p .silent 8 []
  refine ⟨?_, ?_, ?_⟩
  · obtain ⟨rest, k, m, hpoint⟩ : ∃ rest k m,
        run 2 = .running ⟨.ok .ok, .run (loop :: rest) :: k, m⟩ := ⟨_, _, _, rfl⟩
    have hlive : (run 2).machine.env.live = #[0, 1] := by decide +kernel
    have hresult : ((run 2).machine.execute names 9 loop).result? = some (.ok .ok) := by
      decide +kernel
    rw [hpoint] at hlive hresult
    obtain ⟨m', hm'⟩ := Progress.exists_of_result? hresult
    exact ⟨rest, k, m, m', hpoint, hlive, hm', hseen.2.1 2 loop rest k m hpoint 9 .ok m' hm'⟩
  · decide +kernel
  · obtain ⟨n, hn, y, e, rest, k, m, hpoint, -, htext, hy⟩ :=
      hseen.2.2 30 "x" (by decide +kernel)
    exact ⟨n, hn, y, e, rest, k, m, hpoint, htext, hy⟩

end Silly
