import Silly.Proofs.Environment.Rebind
import Silly.Proofs.Heap.Growth
import Silly.Proofs.Machine.Session

/-!
# Assignments are all or nothing

An expression reads the frames and changes none of them, so all that an evaluation leaves behind are
strings in the heap, whether it comes to a value or fails (`Machine.eval_keepsRest`). A statement that
gives a variable a value therefore has one moment at which a binding changes, and that is the last thing
it does.

Between the check that the variable is declared and the moment when the value is stored there is only an
evaluation. The frames are the same at both, so the frame that was found by the check is the one that the
value goes to, and storing does not fail (`Machine.evalStore_cases`). A declaration is the one statement
that can fail halfway: its variable exists, without a value, when its first value is computed.
-/

namespace Silly

namespace Machine

variable {m m' m'' : Machine} (names : Interner)

/-- **A machine that is left as it was** but for its frames, and for strings that were put behind those in
the heap. -/
structure KeepsRest (m m' : Machine) : Prop where
  texts : m.heap.texts <+: m'.heap.texts
  rest : m' = { m with heap := m'.heap, env := m'.env }

theorem KeepsRest.refl (m : Machine) : m.KeepsRest m := ⟨List.prefix_rfl, rfl⟩

theorem KeepsRest.trans (h : m.KeepsRest m') (h' : m'.KeepsRest m'') : m.KeepsRest m'' where
  texts := h.texts.trans h'.texts
  rest := by
    rw [h'.rest, h.rest]

/-- Frames may be changed. -/
theorem keepsRest_env (m : Machine) (env : Environment) : m.KeepsRest { m with env := env } :=
  ⟨List.prefix_rfl, rfl⟩

/-- **An evaluation** leaves nothing behind but strings. -/
theorem eval_keepsRest (m : Machine) (e : Expr) :
    m.KeepsRest (m.eval names e).2 ∧ (m.eval names e).2.env = m.env :=
  ⟨⟨Heap.extends_iff_prefix.mp (e.extends_eval m.heap), rfl⟩, rfl⟩

/-! ### Statements that take one step -/

/-- A statement that is done in one step, before any tasks, is executed in that step. -/
theorem execute_of_start {s : Stmt} {result : Outcome Status}
    (h : ∀ k, s.start names k m = ⟨result, k, m'⟩) (fuel : Nat) :
    m.execute names (fuel + 2) s = .finished result m' := by
  -- One step is the statement itself, and one more drops the block that is over.
  have hstart : (Task.run [s]).step names (.ok .ok) [] m = ⟨result, [.run []], m'⟩ := h [.run []]
  rw [execute, load, Config.run_succ_cons, hstart, Config.run_succ_cons, Task.step_run_nil,
    Config.run_nil]

/-- **Evaluating and storing**, where the variable is found. Only the evaluation can fail. -/
theorem evalStore_cases {x : Name} {id : FrameId} (hfind : m.env.find x = .ok (some id)) (e : Expr) :
    (∃ s m', m.eval names e = (.error s, m') ∧
        ∀ k, evalStore names x e k m = ⟨.error s, k, m'⟩) ∨
      ∃ v m', m.eval names e = (.ok v, m') ∧
        ∀ k, evalStore names x e k m =
          ⟨.ok .ok, k, { m' with env := m.env.modify id (·.assign x v) }⟩ := by
  have henv := (m.eval_keepsRest names e).2
  unfold evalStore
  revert henv
  obtain ⟨s | v, m'⟩ := m.eval names e
  -- The evaluation may fail, and then nothing has been stored.
  · exact fun _ => .inl ⟨s, m', rfl, fun _ => rfl⟩
  · intro henv
    -- The frames are those in which the variable was found.
    have henv' : m'.env = m.env := henv
    have hstore : m'.store names x v = (.ok (), { m' with env := m.env.modify id (·.assign x v) }) := by
      simp only [store, henv', Environment.store_of_find hfind, ScopeOutcome.outcome]
    refine .inr ⟨v, m', rfl, fun k => ?_⟩
    simp only [hstore]
    rfl

/-! ### Assignments -/

/-- **An assignment** fails before any binding has changed, or changes the binding of its variable in the
nearest frame that declares it. -/
theorem start_assign (m : Machine) (x : Name) (e : Expr) :
    ∃ result m', (∀ k, (Stmt.assign x e).start names k m = ⟨result, k, m'⟩) ∧ m.KeepsRest m' ∧
      ((∃ s, result = .error s ∧ m'.env = m.env ∧
          (m.env.isDeclared x = .ok true → (m.eval names e).1 = .error s)) ∨
        ∃ id v, result = .ok .ok ∧ (m.eval names e).1 = .ok v ∧
          m.env.Nearest x m.env.current id ∧ m.env.Rebinds id x (some v) m'.env) := by
  -- What a statement begins with is looked at, since it is over in one step.
  have hstart (k : List Task) : (Stmt.assign x e).start names k m = assign names x e k m := rfl
  simp only [hstart, assign, Environment.isDeclared]
  -- The variable is looked for first. If it is not found, nothing has changed.
  cases hfind : m.env.find x with
  | error f => exact ⟨_, m, fun _ => rfl, .refl m, .inl ⟨_, rfl, rfl, fun h => by cases h⟩⟩
  | ok found =>
    cases found with
    | none => exact ⟨_, m, fun _ => rfl, .refl m, .inl ⟨_, rfl, rfl, fun h => by cases h⟩⟩
    | some id =>
      obtain ⟨hrest, henv⟩ := m.eval_keepsRest names e
      obtain ⟨s, m', heval, hstored⟩ | ⟨v, m', heval, hstored⟩ := evalStore_cases names hfind e
      -- The evaluation fails and leaves the frames as they were, or the value is stored.
      · rw [heval] at hrest henv
        exact ⟨_, m', hstored, hrest, .inl ⟨s, rfl, henv, fun _ => by rw [heval]⟩⟩
      · rw [heval] at hrest henv
        have hnearest := Environment.nearest_of_find hfind
        refine ⟨_, _, hstored, hrest.trans (m'.keepsRest_env _), .inr ⟨id, v, rfl, ?_⟩⟩
        exact ⟨by rw [heval], hnearest, hnearest.rebinds v⟩

/-! ### Declarations -/

/-- **A declaration** is refused, or it adds its variable to the innermost frame `f`, with its first value
if that can be computed. -/
theorem start_declare {f : Frame} (hf : m.env.frames[m.env.current]? = some f) {x : Name}
    {text : String} (hx : names.text? x = some text) (e : Expr) :
    ∃ result m', (∀ k, (Stmt.declare x e).start names k m = ⟨result, k, m'⟩) ∧ m.KeepsRest m' ∧
      ((f.declares x = true ∧ result = .error (.error (.alreadyDeclared text)) ∧ m' = m) ∨
        f.declares x = false ∧
          ((∃ s, result = .error s ∧ ((m.declare names x).2.eval names e).1 = .error s ∧
              m.env.Rebinds m.env.current x none m'.env) ∨
            ∃ v, result = .ok .ok ∧ ((m.declare names x).2.eval names e).1 = .ok v ∧
              m.env.Rebinds m.env.current x (some v) m'.env)) := by
  have hstart (k : List Task) : (Stmt.declare x e).start names k m = declareStore names x e k m := rfl
  simp only [hstart, declareStore]
  -- The innermost frame has the name already, or the declaration adds it.
  obtain ⟨hlocal, hdeclare⟩ | ⟨hlocal, hdeclare⟩ := Environment.declare_cases hf x
  · have hrefused : m.declare names x = (.error (.error (.alreadyDeclared text)), m) := by
      simp only [declare, hdeclare, ScopeOutcome.outcome, ScopeError.stop, ScopeError.name,
        Interner.resolve, hx, Outcome.ofOption]
    rw [hrefused]
    exact ⟨_, m, fun _ => rfl, .refl m, .inl ⟨hlocal, rfl, rfl⟩⟩
  · have hframe : m.env.frame m.env.current = .ok f := by rw [Environment.frame, hf]
    have hdeclared : m.declare names x =
        (.ok (), { m with env := m.env.modify m.env.current (·.declare x) }) := by
      simp only [declare, hdeclare, ScopeOutcome.outcome]
    rw [hdeclared]
    -- Storing the value comes to the frame of the declaration, and changes the same binding again.
    have hfound := Environment.find_modify_declare hframe x
    have hnew := m.env.rebinds_declare m.env.current x
    generalize m.env.modify m.env.current (·.declare x) = env₁ at hfound hnew ⊢
    obtain ⟨hrest, henv⟩ := eval_keepsRest names { m with env := env₁ } e
    have hkeeps := (m.keepsRest_env env₁).trans hrest
    obtain ⟨s, m', heval, hstored⟩ | ⟨v, m', heval, hstored⟩ :=
      evalStore_cases names (m := { m with env := env₁ }) hfound e
    -- The evaluation fails, and the variable stays without a value.
    · rw [heval] at hkeeps henv
      have henv' : m'.env = env₁ := henv
      refine ⟨_, m', hstored, hkeeps, .inr ⟨hlocal, .inl ⟨s, rfl, by rw [heval], ?_⟩⟩⟩
      rw [henv']
      exact hnew
    -- The value is stored over the binding that the declaration has made.
    · rw [heval] at hkeeps
      refine ⟨_, _, hstored, hkeeps.trans (m'.keepsRest_env _), .inr ⟨hlocal, .inr ⟨v, rfl, ?_⟩⟩⟩
      exact ⟨by rw [heval], hnew.trans ((Environment.nearest_of_find hfound).rebinds v)⟩

/-! ### All or nothing -/

/-- **Assignments are all or nothing.** An evaluation leaves nothing behind but strings, which are put
behind those in the heap. An assignment fails without a change to any binding, or changes just the one of
its variable in the nearest frame that declares it. If its variable is declared, then nothing can fail but
the evaluation. A declaration is refused without a change to anything. Or else its variable is new in the
innermost frame, without a value if the evaluation fails, and with its value if it does not. -/
theorem updates_all_or_nothing (names : Interner) (m : Machine) :
    (∀ e, m.KeepsRest (m.eval names e).2 ∧ (m.eval names e).2.env = m.env) ∧
    (∀ x e, ∃ result m', (∀ fuel, m.execute names (fuel + 2) (.assign x e) = .finished result m') ∧
      m.KeepsRest m' ∧
      ((∃ s, result = .error s ∧ m'.env = m.env ∧
          (m.env.isDeclared x = .ok true → (m.eval names e).1 = .error s)) ∨
        ∃ id v, result = .ok .ok ∧ (m.eval names e).1 = .ok v ∧
          m.env.Nearest x m.env.current id ∧ m.env.Rebinds id x (some v) m'.env)) ∧
    ∀ f x e text, m.env.frames[m.env.current]? = some f → names.text? x = some text →
      ∃ result m', (∀ fuel, m.execute names (fuel + 2) (.declare x e) = .finished result m') ∧
        m.KeepsRest m' ∧
        ((f.declares x = true ∧ result = .error (.error (.alreadyDeclared text)) ∧ m' = m) ∨
          f.declares x = false ∧
            ((∃ s, result = .error s ∧ ((m.declare names x).2.eval names e).1 = .error s ∧
                m.env.Rebinds m.env.current x none m'.env) ∨
              ∃ v, result = .ok .ok ∧ ((m.declare names x).2.eval names e).1 = .ok v ∧
                m.env.Rebinds m.env.current x (some v) m'.env)) := by
  -- Both kinds of statements are done in one step, so executing them is that step.
  refine ⟨fun e => m.eval_keepsRest names e, fun x e => ?_, fun f x e text hf hx => ?_⟩
  · obtain ⟨result, m', hstart, hends⟩ := start_assign names m x e
    exact ⟨result, m', execute_of_start names hstart, hends⟩
  · obtain ⟨result, m', hstart, hends⟩ := start_declare names hf hx e
    exact ⟨result, m', execute_of_start names hstart, hends⟩

/-- A variable that is used for its own first value, in a block inside one that declares it too. The
declaration fails halfway, and the variable around it keeps its value. -/
theorem updates_all_or_nothing_halfway :
    let names := Interner.initial
    let x := names.nameOf "sub"
    let e : Expr := .list [.str x, .var x]
    let outer : Frame := ⟨[(x, some (.int 5))], none⟩
    let m : Machine := { Machine.initial .silent 8 with
      env := ⟨#[outer, ⟨[], some FrameId.global⟩], #[FrameId.global, 1]⟩ }
    ∃ m', m.execute names 2 (.declare x e) =
        .finished (.error (.error (.unassignedVariable "sub"))) m' ∧
      m.env.Rebinds 1 x none m'.env ∧ m.heap.texts <+: m'.heap.texts := by
  intro names x e outer m
  have hx : names.text? x = some "sub" := by decide +kernel
  have hfail : ((m.declare names x).2.eval names e).1 =
      .error (.error (.unassignedVariable "sub")) := by decide +kernel
  have hf : m.env.frames[m.env.current]? = some ⟨[], some FrameId.global⟩ := rfl
  obtain ⟨result, m', hexecute, hkeeps, ⟨hlocal, -⟩ | ⟨-, ⟨s, rfl, hs, hrebinds⟩ | ⟨v, -, hv, -⟩⟩⟩ :=
    (updates_all_or_nothing names m).2.2 _ x e "sub" hf hx
  · cases hlocal
  · cases hfail.symm.trans hs
    exact ⟨m', hexecute 0, hrebinds, hkeeps.texts⟩
  · cases hfail.symm.trans hv

end Machine

end Silly
