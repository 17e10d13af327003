import Silly.Proofs.Machine.Safety
import Silly.Proofs.Machine.Session
import Silly.Proofs.Machine.Start

/-!
# Programs without `while` end

A call runs whatever body the table of subroutines holds by then, which may be the one that makes the
call. So the size of the statements that are left to run does not bound a run. What falls along it is,
first, the room that the limit leaves for further calls (`Machine.Budget`), which is less by one while
a call is active; then the size of a statement; and for a `repeat` the times that are left.

That tasks are carried out to the end is said for every signal and for all machines with the same
budget at once, together with the budget they leave (`Finishes`). So what is known of the body of a
subroutine is known of it wherever it is called from, and tasks that finish may follow one another.
-/

namespace Silly

/-! ### Programs without `while` -/

mutual
/-- **No `while` is in the statement**, nor in the bodies inside of it, those of subroutines
included. -/
def Stmt.WhileFree : Stmt → Prop
  | .assign .. | .declare .. | .print _ | .call _ | .exit | .breakLoop => True
  | .ifElse arms => arms.WhileFree
  | .whileDo .. => False
  | .repeatTimes _ body | .sub _ body => blockWhileFree body

/-- No body of a chain of arms holds a `while`. -/
def Arms.WhileFree : Arms → Prop
  | .done => True
  | .otherwise body => blockWhileFree body
  | .arm _ body rest => blockWhileFree body ∧ rest.WhileFree

/-- No statement of a block holds a `while`. -/
def blockWhileFree : List Stmt → Prop
  | [] => True
  | s :: ss => s.WhileFree ∧ blockWhileFree ss
end

/-- **A program without `while`.** -/
def Program.WhileFree (p : Program) : Prop := blockWhileFree p

namespace Machine

/-- **No subroutine of the machine holds a `while`.** -/
def SubsWhileFree (m : Machine) : Prop :=
  ∀ x sub, m.subs.lookup x = some sub → blockWhileFree sub.body

/-- **There is room for `b` more calls** at most, and they run bodies without `while`. -/
structure Budget (b : Nat) (m : Machine) : Prop where
  room : m.maxCalls ≤ m.calls + b
  subs : m.SubsWhileFree

end Machine

/-- **The tasks `ts` are carried out to the end**, whatever the signal, where there is room for at
most `b` calls; and then there is room for at most `b'`. -/
def Finishes (names : Interner) (b : Nat) (ts : List Task) (b' : Nat) : Prop :=
  ∀ signal (m : Machine), m.Budget b →
    ∃ fuel result m', Config.run names fuel ⟨signal, ts, m⟩ = .finished result m' ∧ m'.Budget b'

/-- **What `f` starts in the machine `m` is carried out to the end**, and then there is room for at
most `b` calls. -/
def Ends (names : Interner) (b : Nat) (f : List Task → Machine → Config) (m : Machine) : Prop :=
  ∃ signal ts m' b', (∀ k, f k m = ⟨signal, ts ++ k, m'⟩) ∧ m'.Budget b' ∧ Finishes names b' ts b

/-- **What is known of the bodies that a call may run**: they finish where there is less room. -/
def FinishesBelow (names : Interner) (b : Nat) : Prop :=
  ∀ b' < b, ∀ body, blockWhileFree body → Finishes names b' [.run body] b'

variable {names : Interner} {b b' b'' : Nat} {m m' : Machine} {f : List Task → Machine → Config}

/-! ### The budget of a machine -/

namespace Machine

/-- **A definition** keeps the table free of `while`, if the body is. -/
theorem SubsWhileFree.addSub (h : m.SubsWhileFree) {x : Name} {sub : Subroutine}
    (hsub : blockWhileFree sub.body) : (m.addSub x sub).SubsWhileFree := by
  intro y sub' hy
  obtain rfl | hold := Machine.eq_or_lookup_of_addSub hy
  · exact hsub
  · exact h y sub' hold

namespace Budget

/-- **What happens without a call** leaves the budget as it is. -/
theorem quiet (h : m.Budget b) (hquiet : m.Quiet m') : (m'.withLimit m.maxCalls).Budget b where
  room := by
    change m.maxCalls ≤ m'.calls + b
    rw [hquiet.calls]
    exact h.room
  subs := by
    change ∀ x sub, m'.subs.lookup x = some sub → blockWhileFree sub.body
    rw [hquiet.subs]
    exact h.subs

theorem enterScope (h : m.Budget b) : m.enterScope.Budget b := ⟨h.room, h.subs⟩

theorem leaveScope (h : m.Budget b) : m.leaveScope.Budget b := ⟨h.room, h.subs⟩

/-- The end of a call makes room for one more. -/
theorem leaveCall (h : m.Budget b) : m.leaveCall.Budget (b + 1) where
  room := by
    have hroom := h.room
    change m.maxCalls ≤ m.calls - 1 + (b + 1)
    omega
  subs := h.subs

/-- Where there is no room, a call is refused. -/
theorem exists_of_lt (h : m.Budget b) (hcalls : m.calls < m.maxCalls) : ∃ b', b = b' + 1 := by
  have hroom := h.room
  exact Nat.exists_eq_add_one.mpr (by omega)

/-- The call that begins takes the room of one. -/
theorem beginCall (h : m.Budget (b + 1)) : m.beginCall.Budget b where
  room := by
    have hroom := h.room
    change m.maxCalls ≤ m.calls + 1 + b
    omega
  subs := h.subs

end Budget

end Machine

/-! ### Tasks that finish -/

namespace Finishes

theorem nil (names : Interner) (b : Nat) : Finishes names b [] b := by
  intro signal m hm
  exact ⟨0, signal, m, rfl, hm⟩

/-- **Tasks that finish may follow one another.** -/
theorem append {ts ts' : List Task} (h : Finishes names b ts b') (h' : Finishes names b' ts' b'') :
    Finishes names b (ts ++ ts') b'' := by
  intro signal m hm
  -- The first tasks are carried out from any machine with the budget, the others from where they end.
  obtain ⟨fuel, result, m₁, hrun, hm₁⟩ := h signal m hm
  obtain ⟨fuel', result', m₂, hrun', hm₂⟩ := h' result m₁ hm₁
  -- The run of both rows ends the first one at some step, and goes on with the second.
  obtain ⟨c, hc, -⟩ | ⟨n, _, _, -, hdone, hmore⟩ := Config.run_append names fuel signal ts m
  · cases hc.symm.trans hrun
  · cases hdone.symm.trans hrun
    exact ⟨n + fuel', result', m₂, (hmore ts' fuel').trans hrun', hm₂⟩

/-- **A task finishes** if the tasks do that it leaves. -/
theorem task {task : Task}
    (h : ∀ signal (m : Machine), m.Budget b → ∃ signal' ts m' b₁,
      task.step names signal [] m = ⟨signal', ts, m'⟩ ∧ m'.Budget b₁ ∧ Finishes names b₁ ts b') :
    Finishes names b [task] b' := by
  intro signal m hm
  obtain ⟨signal', ts, m', b₁, hstep, hm', hts⟩ := h signal m hm
  obtain ⟨fuel, result, m'', hrun, hm''⟩ := hts signal' m' hm'
  refine ⟨fuel + 1, result, m'', ?_, hm''⟩
  rw [Config.run_succ_cons, hstep]
  exact hrun

theorem leaveScope (names : Interner) (b : Nat) : Finishes names b [.leaveScope] b :=
  task fun signal m hm => ⟨signal, [], m.leaveScope, b, rfl, hm.leaveScope, .nil names b⟩

/-- **The end of a call** is one step, and makes room for another one. -/
theorem leaveCall (names : Interner) (b : Nat) : Finishes names b [.leaveCall] (b + 1) :=
  task fun signal m hm => ⟨signal, [], m.leaveCall, b + 1, rfl, hm.leaveCall, .nil names _⟩

/-- **A body in a scope of its own.** -/
theorem inScope {body : Block} (h : Finishes names b [.run body] b) :
    Finishes names b [.run body, .leaveScope] b :=
  h.append (leaveScope names b)

/-- **A `repeat`** has a number of times left, and a body that finishes each time. -/
theorem repeatTimes {body : Block} (h : Finishes names b [.run body] b) (left : Nat) :
    Finishes names b [.repeatTimes left body] b := by
  -- The induction is on the times that are left.
  induction left with
  | zero =>
    refine task fun signal m hm => ?_
    -- No time is left, or the signal ends the loop. Either way it is one step.
    obtain s | (_ | _ | _) := signal
    all_goals exact ⟨_, [], m, b, rfl, hm, .nil names b⟩
  | succ left ih =>
    refine task fun signal m hm => ?_
    obtain s | (_ | _ | _) := signal
    case ok.ok =>
      -- The body is carried out once, and then there is one time less.
      have hbody : Finishes names b ([.run body, .leaveScope] ++ [.repeatTimes left body]) b :=
        h.inScope.append ih
      exact ⟨.ok .ok, _, m.enterScope, b, rfl, hm.enterScope, hbody⟩
    all_goals exact ⟨_, [], m, b, rfl, hm, .nil names b⟩

theorem run_nil (names : Interner) (b : Nat) : Finishes names b [.run []] b :=
  task fun signal m hm => ⟨signal, [], m, b, Task.step_run_nil names signal [] m, hm, .nil names b⟩

/-- **A block** finishes if its first statement does and those after it. -/
theorem run_cons {s : Stmt} {rest : List Stmt}
    (hs : ∀ m : Machine, m.Budget b → Ends names b (fun k m => s.start names k m) m)
    (hrest : Finishes names b [.run rest] b) : Finishes names b [.run (s :: rest)] b := by
  refine task fun signal m hm => ?_
  obtain e | (_ | _ | _) := signal
  case ok.ok =>
    -- The statement is begun, its tasks are carried out, and then those of the rest of the block.
    obtain ⟨signal', ts, m', b', hstart, hm', hts⟩ := hs m hm
    have hstep : (Task.run (s :: rest)).step names (.ok .ok) [] m =
        ⟨signal', ts ++ [.run rest], m'⟩ := hstart [.run rest]
    exact ⟨signal', _, m', b', hstep, hm', hts.append hrest⟩
  -- After any other signal the block is dropped.
  all_goals exact ⟨_, [], m, b, rfl, hm, .nil names b⟩

end Finishes

/-! ### Statements that finish -/

section Ends

variable (hm : m.Budget b)

include hm

/-- What is over at once. -/
theorem Machine.Settles.ends (h : m.Settles f) : Ends names b f m := by
  obtain ⟨signal, m', hstarts, hquiet, -⟩ := h
  exact ⟨signal, [], m'.withLimit m.maxCalls, b, hstarts m.maxCalls, hm.quiet hquiet,
    .nil names b⟩

/-- **A block that is entered** finishes if its body does. -/
theorem ends_enterBlock {body : Block} (h : Finishes names b [.run body] b) :
    Ends names b (enterBlock body) m :=
  ⟨.ok .ok, [.run body, .leaveScope], m.enterScope, b, fun _ => rfl, hm.enterScope, h.inScope⟩

/-- **A `repeat`** fails at its count, or finishes as its body does each time. -/
theorem ends_beginRepeat (count : Expr) {body : Block} (h : Finishes names b [.run body] b) :
    Ends names b (Machine.beginRepeat names count body) m := by
  obtain hsettles | ⟨left, m', hstarts, hquiet⟩ := m.beginRepeat_cases names count body
  · exact hsettles.ends hm
  · exact ⟨.ok .ok, _, _, b, hstarts m.maxCalls, hm.quiet hquiet, h.repeatTimes left⟩

/-- **A definition** is over at once, and leaves a table that is free of `while`. -/
theorem ends_define (x : Name) {body : Block} (hbody : blockWhileFree body) :
    Ends names b (Machine.define names x body) m := by
  obtain hsettles | ⟨m', scope, hstarts, hquiet⟩ := m.define_cases names x body
  · exact hsettles.ends hm
  · have hm' := hm.quiet hquiet
    have hadded : ((m'.withLimit m.maxCalls).addSub x ⟨body, scope⟩).Budget b :=
      ⟨hm'.room, hm'.subs.addSub hbody⟩
    exact ⟨.ok .ok, [], _, b, hstarts m.maxCalls, hadded, .nil names b⟩

/-- **A call** finishes if the bodies do that may be called, with room for one call less. -/
theorem ends_call (hbelow : FinishesBelow names b) (x : Name) :
    Ends names b (Machine.call names x) m := by
  obtain hsettles | ⟨sub, hsub, hcalls⟩ := m.call_cases names x
  -- The table holds a subroutine. Whether it is run, the limit says.
  · exact hsettles.ends hm
  obtain hroom | hfull := Nat.lt_or_ge m.calls m.maxCalls
  · obtain ⟨signal, m', hquiet, -, hfailed⟩ | ⟨m', hquiet, hbegun⟩ := hcalls.entered
    · exact ⟨signal, [], _, b, fun k => hfailed _ k hroom, hm.quiet hquiet, .nil names b⟩
    · -- The body has what the call leaves of the room, and the end of the call gives it back.
      obtain ⟨b', rfl⟩ := hm.exists_of_lt hroom
      have hbody : Finishes names b' [.run sub.body] b' :=
        hbelow b' (Nat.lt_succ_self b') _ (hm.subs x sub hsub)
      have hend : Finishes names b' ([.run sub.body, .leaveScope] ++ [.leaveCall]) (b' + 1) :=
        hbody.inScope.append (.leaveCall names b')
      exact ⟨.ok .ok, [.run sub.body, .leaveScope, .leaveCall], (m'.withLimit m.maxCalls).beginCall,
        b', fun k => hbegun _ k hroom, (hm.quiet hquiet).beginCall, hend⟩
  -- There is no room, and the call is refused.
  · obtain ⟨m', hquiet, -, hrefused⟩ := hcalls.refused
    exact ⟨_, [], _, b, fun k => hrefused _ k hfull, hm.quiet hquiet, .nil names b⟩

end Ends

-- The body of a subroutine is no part of a call: what is known of it is an assumption here.
mutual
/-- **A statement without `while`** finishes. -/
theorem Stmt.ends (hbelow : FinishesBelow names b) :
    ∀ s : Stmt, s.WhileFree →
      ∀ m : Machine, m.Budget b → Ends names b (fun k m => s.start names k m) m
  | .assign x e, _, m, hm => (m.settles_assign names x e).ends hm
  | .declare x e, _, m, hm => (m.settles_declareStore names x e).ends hm
  | .print e, _, m, hm => (m.settles_printValue names e).ends hm
  | .ifElse arms, h, m, hm => arms.ends hbelow h m hm
  | .whileDo .., h, _, _ => h.elim
  | .repeatTimes count body, h, _, hm =>
    ends_beginRepeat hm count (finishes_block hbelow body h)
  | .sub x _, h, _, hm => ends_define hm x h
  | .call x, _, _, hm => ends_call hm hbelow x
  | .exit, _, m, hm => ⟨.ok .exit, [], m, b, fun _ => rfl, hm, .nil names b⟩
  | .breakLoop, _, m, hm => ⟨.ok .break, [], m, b, fun _ => rfl, hm, .nil names b⟩

/-- **A chain of arms without `while`** finishes: one body is run at most. -/
theorem Arms.ends (hbelow : FinishesBelow names b) :
    ∀ arms : Arms, arms.WhileFree →
      ∀ m : Machine, m.Budget b → Ends names b (fun k m => arms.start names k m) m
  | .done, _, m, hm => ⟨.ok .ok, [], m, b, fun _ => rfl, hm, .nil names b⟩
  | .otherwise body, h, _, hm => ends_enterBlock hm (finishes_block hbelow body h)
  | .arm cond body rest, h, m, hm => by
    -- A test is the same for every limit, and so for the one that the machine has.
    obtain ⟨r, m', htest, hquiet, -⟩ := m.computes_test names .ifCondition cond
    have hm' := hm.quiet hquiet
    have hstart := htest m.maxCalls
    rw [m.withLimit_maxCalls] at hstart
    simp only [Ends, Arms.start, hstart]
    obtain s | (_ | _) := r
    · exact ⟨.error s, [], _, b, fun _ => rfl, hm', .nil names b⟩
    · exact rest.ends hbelow h.2 _ hm'
    · exact ends_enterBlock hm' (finishes_block hbelow body h.1)

/-- **A block without `while`** finishes, if what its calls run does. -/
theorem finishes_block (hbelow : FinishesBelow names b) :
    ∀ body : Block, blockWhileFree body → Finishes names b [.run body] b
  | [], _ => .run_nil names b
  | s :: rest, h => .run_cons (s.ends hbelow h.1) (finishes_block hbelow rest h.2)
end

/-- **A block without `while` finishes**, however much room there is for calls. -/
theorem finishes_run (names : Interner) (b : Nat) (body : Block) (h : blockWhileFree body) :
    Finishes names b [.run body] b := by
  -- While a call is active there is less room, whatever the body is that it runs.
  induction b using Nat.strongRecOn generalizing body with
  | ind b ih => exact finishes_block ih body h

/-! ### Programs that finish -/

namespace Machine

/-- **A program without `while` ends**, whatever its `repeat` counts are, however its subroutines call
one another, and whatever the limit on calls is: with a status or with an error of the program. The
machine may be one that has run nothing, which has no subroutines (`SourceSession.start`), or one that
has run other such programs, and it may run more of them. -/
theorem SourceSession.run_finishes {names names' : Interner} {m : Machine}
    (hm : SourceSession names m) (hsubs : m.SubsWhileFree) {source : String} {p : Program}
    (hp : parse source names = (.ok p, names')) (hfree : p.WhileFree) :
    ∃ fuel result m', m.run names' fuel p = .finished result m' ∧ m'.SubsWhileFree ∧
      ((∃ status, result = .ok status) ∨ ∃ e, result = .error (.error e)) := by
  -- No call is needed to have the whole of the limit left.
  have hbudget : m.Budget m.maxCalls := ⟨Nat.le_add_left _ _, hsubs⟩
  obtain ⟨fuel, result, m', hrun, hm'⟩ :=
    finishes_run names' m.maxCalls p hfree (.ok .ok) m hbudget
  -- That the result is no fault is known of every run of a source.
  have hload : (m.load p).run names' fuel = .finished result m' := hrun
  have halike := hm.alike_run hp fuel
  rw [hload] at halike
  refine ⟨fuel, result, m'.ended result, (run_eq_finished_iff names').mpr ⟨m', hload, rfl⟩, ?_, ?_⟩
  · obtain hended | ⟨status, hended⟩ := m'.ended_cases result
    · rw [hended]
      exact hm'.subs
    · rw [hended]
      exact hm'.subs
  · have hfaultless : Faultless result := halike.faultless
    exact hfaultless.cases.symm

/-- Two subroutines that call each other without end, the one of them in a `repeat`. -/
theorem SourceSession.run_finishes_mutual :
    let x : Name := ⟨20⟩
    let y : Name := ⟨21⟩
    let names := ((Interner.initial.intern "x").2.intern "y").2
    let p : Program := [.sub x [.repeatTimes (.int 2) [.call y]], .sub y [.call x], .call x]
    let names' := (parse (p.display names.text) names).2
    p.WhileFree ∧ ∃ fuel result m', (initial .silent 8).run names' fuel p = .finished result m' ∧
      m'.SubsWhileFree ∧
      ((∃ status, result = .ok status) ∨ ∃ e, result = .error (.error e)) := by
  intro x y names p names'
  have hx : names.IsIdentifier x := ⟨"x", by decide +kernel, by decide +kernel⟩
  have hy : names.IsIdentifier y := ⟨"y", by decide +kernel, by decide +kernel⟩
  have hwell : p.WellFormed names := by
    intro s hs
    simp only [p, List.mem_cons, List.not_mem_nil, or_false] at hs
    rcases hs with rfl | rfl | rfl
    · exact ⟨hx, ⟨trivial, hy, trivial⟩, trivial⟩
    · exact ⟨hy, hx, trivial⟩
    · exact hx
  have hparse : parse (p.display names.text) names = (.ok p, names') :=
    parse_eq_of_ok (parse_display hwell)
  have hfree : p.WhileFree := ⟨⟨⟨trivial, trivial⟩, trivial⟩, ⟨trivial, trivial⟩, trivial, trivial⟩
  have hstart : SourceSession names (initial .silent 8) := .start names .silent 8 []
  exact ⟨hfree, hstart.run_finishes nofun hparse hfree⟩

end Machine

end Silly
