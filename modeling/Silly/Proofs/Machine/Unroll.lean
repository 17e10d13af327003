import Silly.Proofs.Machine.Nest

/-!
# A `repeat` is its unrolling

A `repeat` whose count is found to be `n` does what `n` copies of its body do that are written one after
the other, each as the body of an `if` of which the condition is `true`. It ends where the copies end, as
soon as one of them does not finish with `ok`. Only `break` makes a difference: it ends the copies, and
the `repeat` has then finished with `ok`.

The two take the same steps (`Config.Unrolls`). Where the one has so many times left to run its body, the
other has as many copies left to run, and a copy begins as the body of the loop does, with a frame of its
own. The number of copies is fixed when the first one begins. It does not matter what the body makes of the
variables that the count was computed from.
-/

namespace Silly

variable (names : Interner) {body : Block} {k : List Task} {c c' : Config}

/-- So many copies of a body, each in an `if` of its own. -/
def copies (body : Block) (n : Nat) : List Stmt :=
  List.replicate n (.ifElse (.arm (.bool true) body .done))

/-- The status of a loop whose body has finished with this one for the last time. -/
def Status.caught : Status → Status
  | .break => .ok
  | status => status

/-- **A `repeat` before the tasks `k`, and the copies that are left of it.** -/
inductive Config.Unrolls (body : Block) (k : List Task) : Config → Config → Prop
  /-- The tasks `ts` that the body has left, if any, are to be done next in both. -/
  | going (signal : Outcome Status) (ts : List Task) (left : Nat) (m : Machine) :
      Unrolls body k ⟨signal, ts ++ .repeatTimes left body :: k, m⟩
        ⟨signal, ts ++ [.run (copies body left)], m⟩
  | ended (result : Outcome Status) (m : Machine) :
      Unrolls body k ⟨result.map Status.caught, k, m⟩ ⟨result, [], m⟩

namespace Config.Unrolls

/-- **Where the body may begin once more**, the next copy may. -/
theorem step_next (signal : Outcome Status) (left : Nat) (m : Machine) :
    Unrolls body k ((Task.repeatTimes left body).step names signal k m)
      ((Task.run (copies body left)).step names signal [] m) := by
  -- Both go on after the normal signal only, and both are over after any other.
  obtain s | (_ | _ | _) := signal
  case ok.ok =>
    cases left with
    | zero => exact .ended (.ok .ok) m
    | succ left => exact .going (.ok .ok) [.run body, .leaveScope] left m.enterScope
  case ok.break => exact .ended (.ok .break) m
  case ok.exit => exact .ended (.ok .exit) m
  case error => exact .ended (.error s) m

/-- **A step** of the one is a step of the other, as long as copies or their tasks are left. -/
theorem step_going (signal : Outcome Status) (ts : List Task) (left : Nat) (m : Machine) :
    ∃ d d', Unrolls body k d d' ∧
      Leads names 1 ⟨signal, ts ++ .repeatTimes left body :: k, m⟩ d ∧
      Leads names 1 ⟨signal, ts ++ [.run (copies body left)], m⟩ d' := by
  cases ts with
  | nil =>
    exact ⟨_, _, step_next names signal left m,
      (Task.repeatTimes left body).leads_step names signal k m,
      (Task.run (copies body left)).leads_step names signal [] m⟩
  | cons task ts =>
    -- The task leaves the same in both, since it does not look at what comes after it.
    obtain ⟨signal', ts', m', htask⟩ := task.step_append names signal m
    have hd : Unrolls body k _ _ := .going signal' (ts' ++ ts) left m'
    rw [List.append_assoc, List.append_assoc, ← htask, ← htask] at hd
    exact ⟨_, _, hd, task.leads_step names signal _ m, task.leads_step names signal _ m⟩

/-- **The two take the same steps** until the copies are done. The `repeat` is then done too, and `break`
was turned into `ok`. -/
theorem run (h : Unrolls body k c c') (fuel : Nat) :
    (∃ result m n, n ≤ fuel ∧ c'.run names fuel = .finished result m ∧
      c.Leads names n ⟨result.map Status.caught, k, m⟩) ∨
      ∃ signal ts left m,
        c.run names fuel = .running ⟨signal, ts ++ .repeatTimes left body :: k, m⟩ ∧
        c'.run names fuel = .running ⟨signal, ts ++ [.run (copies body left)], m⟩ := by
  -- The induction is on the steps, which the two take together.
  induction fuel generalizing c c' with
  | zero =>
    cases h with
    | ended result m => exact .inl ⟨result, m, 0, Nat.le_refl 0, Config.run_nil .., .refl _⟩
    | going signal ts left m =>
      refine .inr ⟨signal, ts, left, m, ?_, ?_⟩
      all_goals cases ts <;> rfl
  | succ fuel ih =>
    cases h with
    | ended result m => exact .inl ⟨result, m, 0, Nat.zero_le _, Config.run_nil .., .refl _⟩
    | going signal ts left m =>
      -- Each takes one step, and both stand at such points again.
      obtain ⟨d, d', hd, hleads, hleads'⟩ := step_going names signal ts left m
      rw [Nat.add_comm fuel 1, hleads fuel, hleads' fuel]
      obtain ⟨result, m₁, n, hn, hfinished, hends⟩ | hrunning := ih hd
      · exact .inl ⟨result, m₁, 1 + n, Nat.add_le_add_left hn 1, hfinished, hleads.trans hends⟩
      · exact .inr hrunning

end Config.Unrolls

/-! ### The statement -/

variable {m m₁ : Machine} {e : Expr} {n : Int64}

/-- **A `repeat` begins** when its count was found, and does not look at the count again. -/
theorem leads_repeatTimes (heval : m.eval names e = (.ok (.int n), m₁)) (body : Block)
    (k : List Task) :
    Config.Leads names 1 ⟨.ok .ok, .run [.repeatTimes e body] :: k, m⟩
      ⟨.ok .ok, .repeatTimes n.toInt.toNat body :: .run [] :: k, m₁.note (.repeatTimes n)⟩ := by
  have hstart : (Task.run [.repeatTimes e body]).step names (.ok .ok) k m =
      ⟨.ok .ok, .repeatTimes n.toInt.toNat body :: .run [] :: k, m₁.note (.repeatTimes n)⟩ := by
    -- The count is evaluated once, when the `repeat` begins.
    show Machine.beginRepeat names e body (.run [] :: k) m = _
    rw [Machine.beginRepeat, heval]
    rfl
  have hleads := (Task.run [.repeatTimes e body]).leads_step names (.ok .ok) k m
  rwa [hstart] at hleads

/-- **A `repeat` is its unrolling.** Let its count be `n` where the `repeat` is executed. Let `n` copies of
its body, none if `n` is negative, be run one after the other once the count was found and noted in the
log, each as the body of an `if` of which the condition is `true`. They stop as soon as one of them does
not finish with `ok`. Then the `repeat` ends where the copies end, in the same machine, with what they came
to but for a `break`, which is turned into `ok`. It does not end if they do not end.

Up to there both take the same steps. At each of them the machine is the same, and so are the tasks that
the body has left. As many times the body is still to be run as there are copies left, whatever has become
of the variables of the count. -/
theorem repeat_is_unrolling (names : Interner) {m m₁ : Machine} {e : Expr} {n : Int64}
    (heval : m.eval names e = (.ok (.int n), m₁)) (body : Block) :
    let unrolled := (m₁.note (.repeatTimes n)).load (copies body n.toInt.toNat)
    (∀ result m', (∃ fuel, m.execute names fuel (.repeatTimes e body) = .finished result m') ↔
      ∃ fuel result', unrolled.run names fuel = .finished result' m' ∧
        result = result'.map Status.caught) ∧
    ∀ fuel c, unrolled.run names fuel = .running c → ∃ ts left,
      c.control = ts ++ [.run (copies body left)] ∧
        m.execute names (fuel + 1) (.repeatTimes e body) =
          .running ⟨c.signal, ts ++ [.repeatTimes left body, .run []], c.machine⟩ := by
  intro unrolled
  have hbegin := leads_repeatTimes names heval body []
  -- After its first step the `repeat` is the loop with so many times left.
  have hexecute (fuel : Nat) : m.execute names (fuel + 1) (.repeatTimes e body) =
      Config.run names fuel
        ⟨.ok .ok, [.repeatTimes n.toInt.toNat body, .run []], m₁.note (.repeatTimes n)⟩ := by
    rw [Nat.add_comm]
    exact hbegin fuel
  have hunrolls : Config.Unrolls body [.run []]
      ⟨.ok .ok, [.repeatTimes n.toInt.toNat body, .run []], m₁.note (.repeatTimes n)⟩ unrolled :=
    .going (.ok .ok) [] n.toInt.toNat (m₁.note (.repeatTimes n))
  -- Where the copies end, the end of a block is all that the `repeat` has left.
  have hends {fuel : Nat} {result' : Outcome Status} {m' : Machine}
      (h : unrolled.run names fuel = .finished result' m') :
      ∃ fuel', m.execute names fuel' (.repeatTimes e body) =
        .finished (result'.map Status.caught) m' := by
    obtain ⟨result₁, m₂, steps, -, hfinished, hleads⟩ | ⟨_, _, _, _, -, hrunning⟩ :=
      hunrolls.run names fuel
    · obtain ⟨rfl, rfl⟩ := Progress.finished.inj (hfinished.symm.trans h)
      refine ⟨steps + 1 + 1, ?_⟩
      rw [hexecute, hleads 1, Config.run_succ_cons, Task.step_run_nil, Config.run_nil]
    · cases hrunning.symm.trans h
  -- If the `repeat` ends the copies end, if they end it does, and until then both are at the same
  -- point.
  refine ⟨fun result m' => ⟨?_, ?_⟩, fun fuel c hc => ?_⟩
  · rintro ⟨fuel, h⟩
    obtain ⟨result', m₂, -, -, hfinished, -⟩ | ⟨_, _, _, _, hrunning, -⟩ := hunrolls.run names fuel
    · -- Both have an end, and a run has only one.
      obtain ⟨fuel', hfuel'⟩ := hends hfinished
      have hone := Config.run_finished h fuel'
      rw [Nat.add_comm] at hone
      obtain ⟨hresult, rfl⟩ :=
        Progress.finished.inj (hone.symm.trans (Config.run_finished hfuel' fuel))
      exact ⟨fuel, result', hfinished, hresult⟩
    · rw [← hexecute] at hrunning
      cases hrunning.symm.trans (Config.run_finished h 1)
  · rintro ⟨fuel, result', h, rfl⟩
    exact hends h
  · obtain ⟨result', m₂, -, -, hfinished, -⟩ | ⟨signal, ts, left, m₂, hrunning, hrunning'⟩ :=
      hunrolls.run names fuel
    -- The copies have not ended yet, so they are at a point of the second kind.
    · cases hfinished.symm.trans hc
    · obtain rfl := Progress.running.inj (hrunning'.symm.trans hc)
      exact ⟨ts, left, rfl, (hexecute fuel).trans hrunning⟩

/-- The body adds to the variable that is the count, and leaves the loop when it is greater than eleven. -/
theorem repeat_is_unrolling_counter :
    let x : Name := .empty
    let more : Stmt := .assign x (.binary .add (.var x) (.int 5))
    let leave : Stmt := .ifElse (.arm (.binary .gt (.var x) (.int 11)) [.breakLoop] .done)
    let body : Block := [more, leave, .print (.var x)]
    let m : Machine := { Machine.initial (.buffer "") 8 with
      env := ⟨#[⟨[(x, some (.int 3))], none⟩], #[FrameId.global]⟩ }
    ∃ m₁ m', m.eval .initial (.var x) = (.ok (.int 3), m₁) ∧
      ((m₁.note (.repeatTimes 3)).load (copies body 3)).run .initial 50 =
        .finished (.ok .break) m' ∧
      m'.printer.held = "8\n" ∧
      ∃ fuel, m.execute .initial fuel (.repeatTimes (.var x) body) = .finished (.ok .ok) m' := by
  intro x more leave body m
  have heval : m.eval .initial (.var x) = (.ok (.int 3), m) := rfl
  have hresult : (((m.note (.repeatTimes 3)).load (copies body 3)).run .initial 50).result? =
      some (.ok .break) := by decide +kernel
  have hheld : (((m.note (.repeatTimes 3)).load (copies body 3)).run .initial
      50).machine.printer.held = "8\n" := by decide +kernel
  obtain ⟨m', hm'⟩ := Progress.exists_of_result? hresult
  rw [hm'] at hheld
  have hunrolling := (repeat_is_unrolling .initial heval body).1 (.ok .ok) m'
  exact ⟨m, m', heval, hm', hheld, hunrolling.mpr ⟨50, .ok .break, hm', rfl⟩⟩

end Silly
