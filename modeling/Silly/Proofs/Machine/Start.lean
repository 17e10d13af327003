import Silly.Proofs.Heap.Raises
import Silly.Proofs.Machine.Alike

/-!
# What a statement begins with

A statement that begins is over at once, or puts tasks before those that are left. What it reads of
the machine on the way does not include the limit on calls: only a call of a subroutine asks for
that, and asks for it once. So everything is said here for all limits together. Started in the same
machine with any limit, a statement leaves the same tasks and comes to machines that differ in their
limits only (`Machine.Starts`).

What is over at once has called nothing and defined nothing, has printed lines at most, and has not
come to the limit (`Machine.Settles`). More comes of a statement if it begins a block or a loop
(`beginRepeat_cases`), if it defines a subroutine (`define_cases`), or if it calls one
(`call_cases`).
-/

namespace Silly

/-! ### The limit on calls -/

/-- The limit `n` on calls stops the program. -/
def Stop.limit (n : Nat) : Stop := .error (.recursionLimitExceeded n)

/-- **An outcome that is not the limit on calls.** -/
def Unlimited {α : Type} (r : Outcome α) : Prop := Raises (fun s => ∀ n, s ≠ .limit n) r

namespace Machine

/-- The machine with another limit on calls. -/
def withLimit (m : Machine) (n : Nat) : Machine := { m with maxCalls := n }

@[simp] theorem withLimit_maxCalls (m : Machine) : m.withLimit m.maxCalls = m := rfl

/-- **What happens without a call.** No subroutine is defined either, and some lines are printed. -/
structure Quiet (m m' : Machine) : Prop where
  calls : m'.calls = m.calls
  subs : m'.subs = m.subs
  printed : m.printer.Precedes m'.printer

/-- **A computation that does not ask for the limit**, and does not come to it. -/
def Computes {α : Type} (m : Machine) (op : Machine → Outcome α × Machine) : Prop :=
  ∃ r m', (∀ n, op (m.withLimit n) = (r, m'.withLimit n)) ∧ m.Quiet m' ∧ Unlimited r

/-- **What `f` starts**, whatever the limit: it comes to the signal and the machine, and puts the
tasks `ts` before those that are left. -/
def Starts (m : Machine) (f : List Task → Machine → Config) (signal : Outcome Status)
    (ts : List Task) (m' : Machine) : Prop :=
  ∀ n k, f k (m.withLimit n) = ⟨signal, ts ++ k, m'.withLimit n⟩

/-- **What is over at once.** -/
def Settles (m : Machine) (f : List Task → Machine → Config) : Prop :=
  ∃ signal m', m.Starts f signal [] m' ∧ m.Quiet m' ∧ Unlimited signal

end Machine

/-! ### Outcomes that are not the limit -/

section Unlimited

variable {α : Type} (names : Interner)

theorem unlimited_ok (a : α) : Unlimited (.ok a : Outcome α) := raises_ok a

theorem unlimited_error {e : RunError} (h : ∀ n, e ≠ .recursionLimitExceeded n) :
    Unlimited (.error (.error e) : Outcome α) := by
  refine raises_error fun n hn => ?_
  cases hn
  exact h n rfl

theorem unlimited_fault (f : Fault) : Unlimited (.error (.fault f) : Outcome α) :=
  raises_error nofun

theorem unlimited_resolve (x : Name) : Unlimited (names.resolve x) :=
  raises_resolve (fun _ => nofun) names x

/-- No complaint about a variable is the limit. -/
theorem unlimited_stop (e : ScopeError) : Unlimited (.error (e.stop names) : Outcome α) := by
  -- The name in the complaint may have no text, which is a fault.
  have hname := unlimited_resolve names e.name
  unfold ScopeError.stop
  revert hname
  cases names.resolve e.name with
  | error s => exact fun hname => raises_error hname.of_error
  | ok x => cases e <;> exact fun _ => unlimited_error nofun

/-- No operation on scopes comes to the limit. -/
theorem unlimited_outcome (r : ScopeOutcome α) : Unlimited (r.outcome names) := by
  cases r with
  | ok a => exact unlimited_ok a
  | error s =>
    cases s with
    | error e => exact unlimited_stop names e
    | fault f => exact unlimited_fault f

/-- The failures of values are not the limit. -/
theorem ne_limit_of_ofValues (e : RunError) (h : e.OfValues) (n : Nat) :
    Stop.error e ≠ .limit n := by
  rintro ⟨⟩
  exact h

theorem unlimited_text (h : Heap) (x : Handle) : Unlimited (StringStore.text h x) :=
  raises_text (fun _ => nofun) h x

/-- **No expression comes to the limit.** -/
theorem Expr.unlimited_eval (e : Expr) (env : Environment) (h : Heap) :
    -- By the lemma on what an evaluation may raise, for the tree and itself.
    Unlimited (e.eval names env h).1 :=
  (ExprAlike.refl (R := fun _ _ => True) (fun _ => trivial) e).raises ne_limit_of_ofValues
    unlimited_text (fun x _ _ => unlimited_resolve names x)
    (fun x _ _ => unlimited_outcome names (env.lookup x)) h

end Unlimited

namespace Machine

variable {m m' m'' : Machine} {f : List Task → Machine → Config} (names : Interner)

namespace Quiet

theorem refl (m : Machine) : m.Quiet m := ⟨rfl, rfl, .refl m.printer⟩

theorem trans (h : m.Quiet m') (h' : m'.Quiet m'') : m.Quiet m'' where
  calls := h'.calls.trans h.calls
  subs := h'.subs.trans h.subs
  printed := h.printed.trans h'.printed

end Quiet

/-! ### Computations -/

/-- **An evaluation** does not ask for the limit. -/
theorem computes_eval (m : Machine) (e : Expr) : m.Computes (·.eval names e) :=
  ⟨(m.eval names e).1, (m.eval names e).2, fun _ => rfl, ⟨rfl, rfl, [], rfl⟩,
    e.unlimited_eval names m.env m.heap⟩

theorem computes_store (m : Machine) (x : Name) (v : Value) : m.Computes (·.store names x v) :=
  ⟨(m.store names x v).1, (m.store names x v).2, fun _ => rfl, ⟨rfl, rfl, [], rfl⟩,
    unlimited_outcome names _⟩

theorem computes_declare (m : Machine) (x : Name) : m.Computes (·.declare names x) :=
  ⟨(m.declare names x).1, (m.declare names x).2, fun _ => rfl, ⟨rfl, rfl, [], rfl⟩,
    unlimited_outcome names _⟩

/-- A test does not ask for the limit, as it is an evaluation and a look at its value. -/
theorem computes_test (m : Machine) (operation : Operation) (e : Expr) :
    m.Computes (·.test names operation e) := by
  obtain ⟨r, m', heval, hquiet, hr⟩ := m.computes_eval names e
  refine ⟨r.bind (·.toBool operation), m', fun n => ?_, hquiet, hr.bind fun v => ?_⟩
  · simp only [test, heval]
  · exact v.raises_toBool ne_limit_of_ofValues operation

/-- Opening a frame does not ask for it either. -/
theorem computes_enterScopeIn (m : Machine) (parent : FrameId) :
    m.Computes (·.enterScopeIn parent) := by
  -- Whether the parent is live, the environment says, and the limit is no part of it.
  obtain ⟨heap, env, subs, printer, calls, maxCalls, log⟩ := m
  simp only [Computes, withLimit, enterScopeIn]
  obtain ⟨f | ⟨⟩, env'⟩ := env.beginScopeIn parent
  · exact ⟨.error (.fault f), ⟨heap, env', subs, printer, calls, maxCalls, log⟩, fun _ => rfl,
      ⟨rfl, rfl, [], rfl⟩, unlimited_fault f⟩
  · exact ⟨.ok (), ⟨heap, env', subs, printer, calls, maxCalls, .beginScope env'.depth :: log⟩,
      fun _ => rfl, ⟨rfl, rfl, [], rfl⟩, unlimited_ok ()⟩

/-! ### What is over at once -/

theorem Quiet.settles (h : m.Quiet m') {signal : Outcome Status}
    (hf : ∀ n k, f k (m.withLimit n) = ⟨signal, k, m'.withLimit n⟩) (hsignal : Unlimited signal) :
    m.Settles f :=
  ⟨signal, m', hf, h, hsignal⟩

/-- **Evaluating and storing** is over at once. -/
theorem settles_evalStore (m : Machine) (x : Name) (e : Expr) :
    m.Settles (evalStore names x e) := by
  -- Either the evaluation stops it, or what storing comes to.
  obtain ⟨s | v, m₁, heval, hquiet, hv⟩ := m.computes_eval names e
  · refine hquiet.settles (fun n k => ?_) (raises_error hv.of_error)
    simp only [evalStore, heval]
    rfl
  · obtain ⟨r, m₂, hstore, hquiet', hr⟩ := m₁.computes_store names x v
    obtain s | ⟨⟩ := r
    · refine (hquiet.trans hquiet').settles (fun n k => ?_) (raises_error hr.of_error)
      simp only [evalStore, heval, hstore]
      rfl
    · refine (hquiet.trans hquiet').settles (fun n k => ?_) (unlimited_ok .ok)
      simp only [evalStore, heval, hstore]
      rfl

/-- **An assignment** is over at once. -/
theorem settles_assign (m : Machine) (x : Name) (e : Expr) : m.Settles (assign names x e) := by
  -- The limit is no part of the environment in which the variable is looked for.
  have henv (n : Nat) : (m.withLimit n).env = m.env := rfl
  cases hx : m.env.isDeclared x with
  | error f =>
    refine (Quiet.refl m).settles (fun n k => ?_) (unlimited_fault f)
    simp only [assign, henv, hx]
    rfl
  | ok declared =>
    cases declared with
    | false =>
      refine (Quiet.refl m).settles (fun n k => ?_) (unlimited_stop names (.undeclared x))
      simp only [assign, henv, hx]
      rfl
    | true =>
      obtain ⟨signal, m', hstore, hquiet, hsignal⟩ := m.settles_evalStore names x e
      refine hquiet.settles (fun n k => ?_) hsignal
      simp only [assign, henv, hx]
      exact hstore n k

/-- **A declaration** with its value is over at once. -/
theorem settles_declareStore (m : Machine) (x : Name) (e : Expr) :
    m.Settles (declareStore names x e) := by
  -- The declaration may fail. If not, what is left is to evaluate and to store.
  obtain ⟨s | ⟨⟩, m₁, hdeclare, hquiet, hr⟩ := m.computes_declare names x
  · refine hquiet.settles (fun n k => ?_) (raises_error hr.of_error)
    simp only [declareStore, hdeclare]
    rfl
  · obtain ⟨signal, m₂, hstore, hquiet', hsignal⟩ := m₁.settles_evalStore names x e
    refine (hquiet.trans hquiet').settles (fun n k => ?_) hsignal
    simp only [declareStore, hdeclare]
    exact hstore n k

/-- **A `print`** is over at once. -/
theorem settles_printValue (m : Machine) (e : Expr) : m.Settles (printValue names e) := by
  obtain ⟨s | v, m₁, heval, hquiet, hv⟩ := m.computes_eval names e
  · refine hquiet.settles (fun n k => ?_) (raises_error hv.of_error)
    simp only [printValue, heval]
    rfl
  · have hheap (n : Nat) : (m₁.withLimit n).heap = m₁.heap := rfl
    -- The value has a line in the heap, or its handles are not there, which is a fault.
    have hunlimited : Unlimited (v.printed m₁.heap) := v.raises_printed unlimited_text m₁.heap
    cases hline : v.printed m₁.heap with
    | error s =>
      rw [hline] at hunlimited
      refine hquiet.settles (fun n k => ?_) (raises_error hunlimited.of_error)
      simp only [printValue, heval, hheap, hline]
      rfl
    | ok line =>
      have hprint : m₁.Quiet (m₁.print line) := ⟨rfl, rfl, [line], rfl⟩
      refine (hquiet.trans hprint).settles (fun n k => ?_) (unlimited_ok .ok)
      simp only [printValue, heval, hheap, hline]
      rfl

/-! ### What is begun -/

/-- **A `repeat`** fails, or is to be run so many times. -/
theorem beginRepeat_cases (m : Machine) (count : Expr) (body : Block) :
    m.Settles (beginRepeat names count body) ∨
      ∃ left m', m.Starts (beginRepeat names count body) (.ok .ok) [.repeatTimes left body] m' ∧
        m.Quiet m' := by
  obtain ⟨s | v, m₁, heval, hquiet, hv⟩ := m.computes_eval names count
  · refine .inl (hquiet.settles (fun n k => ?_) (raises_error hv.of_error))
    simp only [beginRepeat, heval]
    rfl
  -- The value must be an integer. If it is one, the times that are left are known.
  · have hunlimited : Unlimited (v.toInt .repeatCount) :=
      v.raises_toInt ne_limit_of_ofValues .repeatCount
    cases hn : v.toInt .repeatCount with
    | error s =>
      rw [hn] at hunlimited
      refine .inl (hquiet.settles (fun n k => ?_) (raises_error hunlimited.of_error))
      simp only [beginRepeat, heval, hn]
      rfl
    | ok left =>
      have hnote : m₁.Quiet (m₁.note (.repeatTimes left)) := ⟨rfl, rfl, [], rfl⟩
      refine .inr ⟨left.toInt.toNat, _, fun n k => ?_, hquiet.trans hnote⟩
      simp only [beginRepeat, heval, hn]
      rfl

/-- **A definition** fails, or adds the subroutine. -/
theorem define_cases (m : Machine) (x : Name) (body : Block) :
    m.Settles (define names x body) ∨
      ∃ m' scope, m.Starts (define names x body) (.ok .ok) [] (m'.addSub x ⟨body, scope⟩) ∧
        m.Quiet m' := by
  have hsubs (n : Nat) : (m.withLimit n).subs = m.subs := rfl
  have hname := unlimited_resolve names x
  cases hx : names.resolve x with
  | error s =>
    rw [hx] at hname
    refine .inl ((Quiet.refl m).settles (fun n k => ?_) (raises_error hname.of_error))
    simp only [define, hx]
    rfl
  | ok name =>
    -- A name that is taken is an error, and it is not the limit.
    by_cases hsub : (m.subs.lookup x).isSome = true
    · have hunlimited : Unlimited (.error (.error (.alreadyDefined name)) : Outcome Status) :=
        unlimited_error (by rintro _ ⟨⟩)
      refine .inl ((Quiet.refl m).settles (fun n k => ?_) hunlimited)
      simp only [define, hx, hsubs, if_pos hsub]
      rfl
    · refine .inr ⟨m.note (.defineSubroutine name), m.env.current, fun n k => ?_, rfl, rfl, [], rfl⟩
      simp only [define, hx, hsubs, if_neg hsub]
      rfl

/-- **What comes of a call** of the subroutine `sub`, by the limit. -/
structure Calls (m : Machine) (f : List Task → Machine → Config) (sub : Subroutine) : Prop where
  /-- At the limit it is refused. -/
  refused : ∃ m', m.Quiet m' ∧ m'.printer = m.printer ∧
    ∀ n k, n ≤ m.calls → f k (m.withLimit n) = ⟨.error (.limit n), k, m'.withLimit n⟩
  /-- Below the limit the body is to be run in a new frame, unless the frame around it has ended. -/
  entered :
    (∃ signal m', m.Quiet m' ∧ Unlimited signal ∧
      ∀ n k, m.calls < n → f k (m.withLimit n) = ⟨signal, k, m'.withLimit n⟩) ∨
    ∃ m', m.Quiet m' ∧ ∀ n k, m.calls < n → f k (m.withLimit n) =
      ⟨.ok .ok, .run sub.body :: .leaveScope :: .leaveCall :: k, m'.beginCall.withLimit n⟩

/-- **A call of a subroutine** asks for the limit once, before it makes a frame. -/
theorem calls_invoke (m : Machine) (name : String) (sub : Subroutine) :
    m.Calls (fun k m => invoke name k m (some sub)) sub where
  refused := by
    refine ⟨m.note .exitCall, ⟨rfl, rfl, [], rfl⟩, rfl, fun n k hn => ?_⟩
    exact if_pos hn
  entered := by
    -- Below the limit, what is left is to make the frame, and this does not ask for the limit.
    obtain ⟨r, m₁, hscope, hquiet, hr⟩ := m.computes_enterScopeIn sub.scope
    have hbelow (n : Nat) (hn : m.calls < n) : ¬(m.withLimit n).maxCalls ≤ (m.withLimit n).calls :=
      Nat.not_le_of_lt hn
    obtain s | ⟨⟩ := r
    · have hnote : m₁.Quiet (m₁.note .exitCall) := ⟨rfl, rfl, [], rfl⟩
      refine .inl ⟨.error s, _, hquiet.trans hnote, raises_error hr.of_error, fun n k hn => ?_⟩
      simp only [invoke, if_neg (hbelow n hn), hscope]
      rfl
    · refine .inr ⟨m₁, hquiet, fun n k hn => ?_⟩
      simp only [invoke, if_neg (hbelow n hn), hscope]
      rfl

/-- **A call** fails for want of the subroutine, or comes to what a call of it comes to. -/
theorem call_cases (m : Machine) (x : Name) :
    m.Settles (call names x) ∨
      ∃ sub, m.subs.lookup x = some sub ∧ m.Calls (call names x) sub := by
  have hname := unlimited_resolve names x
  cases hx : names.resolve x with
  | error s =>
    rw [hx] at hname
    refine .inl ((Quiet.refl m).settles (fun n k => ?_) (raises_error hname.of_error))
    simp only [call, hx]
    rfl
  | ok name =>
    -- Before the limit is asked for, the call writes two lines to the log.
    let m₁ := (m.note (.callSubroutine name)).note .enterCall
    have hquiet : m.Quiet m₁ := ⟨rfl, rfl, [], rfl⟩
    have hcall (n : Nat) (k : List Task) :
        call names x k (m.withLimit n) = invoke name k (m₁.withLimit n) (m.subs.lookup x) := by
      simp only [call, hx]
      rfl
    -- Without a subroutine of the name, the call is refused for that.
    cases hsub : m.subs.lookup x with
    | none =>
      have hnote : m₁.Quiet (m₁.note .exitCall) := ⟨rfl, rfl, [], rfl⟩
      have hunlimited : Unlimited (.error (.error (.undefinedSubroutine name)) : Outcome Status) :=
        unlimited_error (by rintro _ ⟨⟩)
      refine .inl ((hquiet.trans hnote).settles (fun n k => ?_) hunlimited)
      rw [hcall, hsub]
      rfl
    | some sub =>
      -- The two lines in the log change nothing that matters.
      obtain ⟨⟨m₂, hquiet₂, hprinter, hrefused⟩, hentered⟩ := m₁.calls_invoke name sub
      refine .inr ⟨sub, rfl, ⟨m₂, hquiet.trans hquiet₂, hprinter, fun n k hn => ?_⟩, ?_⟩
      · rw [hcall, hsub]
        exact hrefused n k hn
      · obtain ⟨signal, m₂, hquiet₂, hsignal, hfailed⟩ | ⟨m₂, hquiet₂, hbegun⟩ := hentered
        · refine .inl ⟨signal, m₂, hquiet.trans hquiet₂, hsignal, fun n k hn => ?_⟩
          rw [hcall, hsub]
          exact hfailed n k hn
        · refine .inr ⟨m₂, hquiet.trans hquiet₂, fun n k hn => ?_⟩
          rw [hcall, hsub]
          exact hbegun n k hn

end Machine

end Silly
