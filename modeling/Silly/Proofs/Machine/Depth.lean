import Silly.Proofs.Machine.Rules

/-!
# How many frames are live

A run may go through a loop and call a subroutine as often as it likes, and still it never has many frames
live at once. How many depends on two numbers: how many calls are active, and how many blocks the program
has that stand one in the other (`nesting`).

The scopes that the tasks close are cut into stretches, one for each active call, by the tasks that end a
call. Along each stretch the scopes that are open and the blocks that the next statements may still open
are no more than the program has one in the other (`Shallow`). That is so at the start, when nothing is
open. It stays so at each step, as a block that is entered stands in the statement that entered it, and as
a call begins a new stretch with the body of a subroutine, which counts as one block. So a stretch closes
at most as many scopes as there are blocks one in the other, and there is one stretch more than calls.
-/

namespace Silly

/-! ### Blocks that stand one in the other -/

mutual
/-- **How many blocks stand one in the other** inside a statement. The body of a subroutine is a block. -/
def Stmt.nesting : Stmt → Nat
  | .ifElse arms => arms.nesting
  | .whileDo _ body | .repeatTimes _ body | .sub _ body => blockNesting body + 1
  | .assign _ _ | .declare _ _ | .print _ | .call _ | .exit | .breakLoop => 0

/-- The bodies of the arms of an `if` stand beside each other. -/
def Arms.nesting : Arms → Nat
  | .done => 0
  | .otherwise body => blockNesting body + 1
  | .arm _ body rest => max (blockNesting body + 1) rest.nesting

/-- How many blocks stand one in the other among statements. -/
def blockNesting : List Stmt → Nat
  | [] => 0
  | s :: ss => max s.nesting (blockNesting ss)
end

/-- **How many blocks of a program stand one in the other**, in that statement of it which has most. -/
def Program.nesting (p : Program) : Nat := blockNesting p

variable {names : Interner} {m m' : Machine} {signal signal' : Outcome Status} {k ts : List Task}
  {most : Nat}

/-! ### Stretches of tasks -/

/-- **How many scopes the tasks close** before a call ends: those that were opened in the innermost
call. -/
def openBlocks : List Task → Nat
  | [] | .leaveCall :: _ => 0
  | .leaveScope :: k => openBlocks k + 1
  | .run _ :: k | .whileDo _ _ :: k | .repeatTimes _ _ :: k => openBlocks k

/-- **Tasks that never have more than `most` blocks open** in one call, those counted in that the
statements they run may open. -/
def Shallow (most : Nat) : List Task → Prop
  | [] => True
  | .run ss :: k => openBlocks k + blockNesting ss ≤ most ∧ Shallow most k
  | .whileDo _ body :: k | .repeatTimes _ body :: k =>
    openBlocks k + (blockNesting body + 1) ≤ most ∧ Shallow most k
  | .leaveScope :: k => openBlocks k + 1 ≤ most ∧ Shallow most k
  | .leaveCall :: k => Shallow most k

/-- **A stretch closes at most `most` scopes.** -/
theorem Shallow.openBlocks_le (h : Shallow most k) : openBlocks k ≤ most := by
  induction k with
  | nil => exact Nat.zero_le most
  | cons task k ih =>
    cases task with
    | run ss => exact ih h.2
    | leaveScope => exact h.1
    | leaveCall => exact Nat.zero_le most
    | whileDo cond body => exact ih h.2
    | repeatTimes left body => exact ih h.2

/-- **The scopes of the innermost call** are those of its stretch, and each other active call has at most
`most`. -/
theorem Shallow.scopes_le (h : Shallow most k) :
    scopes k ≤ openBlocks k + activeCalls k * most := by
  -- The induction goes along the tasks, and only the two kinds of ends count.
  induction k with
  | nil => exact Nat.zero_le _
  | cons task k ih =>
    cases task with
    | run ss => exact ih h.2
    | leaveScope =>
      have hrest : scopes k ≤ openBlocks k + activeCalls k * most := ih h.2
      calc scopes k + 1 ≤ openBlocks k + activeCalls k * most + 1 := Nat.succ_le_succ hrest
        _ = openBlocks k + 1 + activeCalls k * most := Nat.add_right_comm ..
    | leaveCall =>
      -- Here one stretch ends, and the one that follows is as shallow.
      have hrest : Shallow most k := h
      calc scopes k ≤ openBlocks k + activeCalls k * most := ih hrest
        _ ≤ most + activeCalls k * most := Nat.add_le_add_right hrest.openBlocks_le _
        _ = 0 + (activeCalls k + 1) * most := by rw [Nat.zero_add, Nat.succ_mul, Nat.add_comm]
    | whileDo cond body => exact ih h.2
    | repeatTimes left body => exact ih h.2

/-- A block that is entered in a stretch where there is room for it. -/
theorem Shallow.enter {body : Block} (h : Shallow most k)
    (hbody : openBlocks k + (blockNesting body + 1) ≤ most) :
    Shallow most (.run body :: .leaveScope :: k) := by
  -- The body has one scope open around it, which is counted as one block more.
  refine ⟨?_, ?_, h⟩
  · show openBlocks k + 1 + blockNesting body ≤ most
    omega
  · omega

/-! ### Steps -/

/-- **A point of a run** of a program with at most `most` blocks one in the other. -/
structure Nested (most : Nat) (k : List Task) (m : Machine) : Prop where
  control : Shallow most k
  /-- The body of a subroutine is a block by itself. -/
  subs : ∀ x sub, m.subs.lookup x = some sub → blockNesting sub.body + 1 ≤ most

namespace Nested

/-- What changes neither the tasks nor the subroutines. -/
theorem finish (h : Nested most k m) (hsubs : m'.subs = m.subs) : Nested most k m' where
  control := h.control
  subs := hsubs ▸ h.subs

/-- **A block begins.** -/
theorem enter {body : Block} (h : Nested most k m) (hsubs : m'.subs = m.subs)
    (hbody : openBlocks k + (blockNesting body + 1) ≤ most) :
    Nested most (.run body :: .leaveScope :: k) m' where
  control := h.control.enter hbody
  subs := hsubs ▸ h.subs

end Nested

/-- **The arms of an `if`** enter one body at most, of which the arms have room. -/
theorem Arms.Leaves.nested {arms : Arms} (h : arms.Leaves names m signal ts m')
    (harms : openBlocks k + arms.nesting ≤ most) (hm : Nested most k m) :
    Nested most (ts ++ k) m' := by
  induction h with
  | done => exact hm
  | otherwise => exact hm.enter rfl harms
  | untested htest =>
    obtain ⟨heap, rfl⟩ := Machine.eq_of_test htest
    exact hm.finish rfl
  | holds htest =>
    -- The body that is entered stands beside those of the other arms.
    obtain ⟨heap, rfl⟩ := Machine.eq_of_test htest
    refine hm.enter rfl (Nat.le_trans (Nat.add_le_add_left ?_ _) harms)
    exact Nat.le_max_left ..
  | fails htest _ ih =>
    obtain ⟨heap, rfl⟩ := Machine.eq_of_test htest
    refine ih (Nat.le_trans (Nat.add_le_add_left ?_ _) harms) (hm.finish rfl)
    exact Nat.le_max_right ..

/-- Evaluating and storing open nothing. -/
theorem Machine.Stores.nested {x : Name} {e : Expr} (h : m.Stores names x e signal m')
    (hm : Nested most k m) : Nested most k m' := by
  cases h with
  | unevaluated heval =>
    obtain ⟨heap, rfl⟩ := eq_of_eval heval
    exact hm.finish rfl
  | unstored heval hstore =>
    obtain ⟨heap, rfl⟩ := eq_of_eval heval
    obtain ⟨-, rfl⟩ := eq_of_store hstore
    exact hm.finish rfl
  | stored heval hstore =>
    obtain ⟨heap, rfl⟩ := eq_of_eval heval
    obtain ⟨-, rfl⟩ := eq_of_store hstore
    exact hm.finish rfl

/-- **A call** begins a stretch, with the body of a subroutine as its only block. -/
theorem Machine.Invokes.nested {name : String} {sub : Option Subroutine}
    (h : m.Invokes name sub signal ts m')
    (hsub : ∀ s, sub = some s → blockNesting s.body + 1 ≤ most) (hm : Nested most k m) :
    Nested most (ts ++ k) m' := by
  cases h with
  | undefined => exact hm.finish rfl
  | limited => exact hm.finish rfl
  | unscoped _ hscope =>
    obtain ⟨-, rfl⟩ := eq_of_enterScopeIn_error hscope
    exact hm.finish rfl
  | @entered sub m₁ _ hscope =>
    obtain ⟨-, rfl⟩ := eq_of_enterScopeIn hscope
    -- The stretch of the call is new, so only the body of the subroutine is counted in it.
    have hbody : openBlocks (.leaveCall :: k) + (blockNesting sub.body + 1) ≤ most := by
      rw [openBlocks, Nat.zero_add]
      exact hsub sub rfl
    have hstretch : Shallow most (.leaveCall :: k) := hm.control
    exact ⟨hstretch.enter hbody, hm.subs⟩

/-- **A statement** enters only blocks of its own, and blocks of subroutines in calls. -/
theorem Stmt.Leaves.nested {s : Stmt} (h : s.Leaves names m signal ts m')
    (hs : openBlocks k + s.nesting ≤ most) (hm : Nested most k m) :
    Nested most (ts ++ k) m' := by
  cases h with
  | assign _ hstores => exact hstores.nested hm
  | declare hdeclare hstores =>
    obtain ⟨-, rfl⟩ := Machine.eq_of_declare hdeclare
    exact hstores.nested (hm.finish rfl)
  | ifElse harms => exact harms.nested hs hm
  | whileDo => exact ⟨⟨hs, hm.control⟩, hm.subs⟩
  | repeatTimes heval =>
    obtain ⟨heap, rfl⟩ := Machine.eq_of_eval heval
    exact ⟨⟨hs, hm.control⟩, hm.subs⟩
  | @sub x body name _ hx =>
    refine ⟨hm.control, fun y sub hy => ?_⟩
    -- The definition stands in the program, so its body has room there.
    obtain rfl | hold := Machine.eq_or_lookup_of_addSub hy
    · exact Nat.le_trans (Nat.le_add_left ..) hs
    · exact hm.subs y sub hold
  | @call x name _ _ _ _ hinvokes => exact hinvokes.nested (hm.subs x) (hm.finish rfl)
  | print heval =>
    obtain ⟨heap, rfl⟩ := Machine.eq_of_eval heval
    exact hm.finish rfl
  | undeclared hdeclare =>
    obtain ⟨-, rfl⟩ := Machine.eq_of_declare hdeclare
    exact hm.finish rfl
  | unevaluated heval | uncounted heval | unprinted heval | countless heval =>
    obtain ⟨heap, rfl⟩ := Machine.eq_of_eval heval
    exact hm.finish rfl
  | _ => exact hm.finish rfl

/-- **A step** opens no more blocks in a call than the program has one in the other. -/
theorem Task.Leaves.nested {task : Task} (h : task.Leaves names m signal signal' ts m')
    (hm : Nested most (task :: k) m) : Nested most (ts ++ k) m' := by
  obtain ⟨hcontrol, hsubs⟩ := hm
  cases h with
  | @start s rest signal ts _ hs =>
    obtain ⟨hblock, hrest⟩ := hcontrol
    -- What is left of the block and the statement that begins are counted beside each other.
    have hmax : openBlocks k + max s.nesting (blockNesting rest) ≤ most := hblock
    have hafter : Nested most (.run rest :: k) m :=
      ⟨⟨Nat.le_trans (Nat.add_le_add_left (Nat.le_max_right ..) _) hmax, hrest⟩, hsubs⟩
    rw [List.append_assoc, List.singleton_append]
    exact hs.nested (Nat.le_trans (Nat.add_le_add_left (Nat.le_max_left ..) _) hmax) hafter
  | ended => exact ⟨hcontrol.2, hsubs⟩
  | dropped => exact ⟨hcontrol.2, hsubs⟩
  | leaveScope => exact ⟨hcontrol.2, hsubs⟩
  -- The stretch ends, and what was counted in the one around it is counted again.
  | leaveCall => exact ⟨hcontrol, hsubs⟩
  | whileUntested htest | whileOver htest =>
    obtain ⟨heap, rfl⟩ := Machine.eq_of_test htest
    exact ⟨hcontrol.2, hsubs⟩
  | whileAgain htest =>
    -- The scope of the last iteration is closed, so there is room for the next one.
    obtain ⟨heap, rfl⟩ := Machine.eq_of_test htest
    exact ⟨Shallow.enter hcontrol hcontrol.1, hsubs⟩
  | @repeatAgain left body =>
    have hagain : Shallow most (.repeatTimes left body :: k) := hcontrol
    exact ⟨hagain.enter hcontrol.1, hsubs⟩
  | whileBreak | repeatOver | repeatBreak => exact ⟨hcontrol.2, hsubs⟩
  | whileLeft | repeatLeft => exact ⟨hcontrol.2, hsubs⟩

/-! ### Runs -/

/-- **At every point of a run of a program**, the tasks are as shallow as the program. -/
theorem nested_run (names : Interner) (p : Program) (printer : Printer) (maxCalls : Nat)
    (log : List Event) (fuel : Nat) :
    let r := (({ Machine.initial printer maxCalls with log := log } : Machine).load p).run names fuel
    Nested p.nesting r.control r.machine := by
  intro r
  -- No scope is open at the start, and there are no subroutines.
  have hstart : Nested p.nesting [.run p]
      { Machine.initial printer maxCalls with log := log } :=
    ⟨⟨Nat.le_of_eq (Nat.zero_add _), trivial⟩, nofun⟩
  exact Config.run_preserves names (P := fun _ k m => Nested p.nesting k m)
    (fun _ _ _ _ _ _ _ hm hstep => hstep.nested hm) fuel
    (c := Machine.load { Machine.initial printer maxCalls with log := log } p) hstart

/-- **Live frames are bounded by nesting and calls.** At every point of a run from the start, however long
it has gone on, the live frames are the global one and, for each active call and once for the program
itself, at most as many as the program has blocks one in the other. So if that many for as many calls as
the limit allows have places of 32 bits, the place of the next frame has 32 bits at every point. -/
theorem depth_le_nesting (names : Interner) (p : Program) (printer : Printer) (maxCalls : Nat)
    (log : List Event) (fuel : Nat) :
    let m := ((({ Machine.initial printer maxCalls with log := log } : Machine).load p).run
      names fuel).machine
    m.env.depth ≤ 1 + (m.calls + 1) * p.nesting ∧
      (1 + (maxCalls + 1) * p.nesting < UInt32.size → m.env.frames.size < UInt32.size) := by
  intro m
  let start : Machine := { Machine.initial printer maxCalls with log := log }
  have hnested := nested_run names p printer maxCalls log fuel
  have htidy : start.env.Tidy := Environment.tidy_initial
  have hloaded : Balanced start start (start.load p).control := ⟨htidy, rfl, rfl⟩
  have hbalanced := Config.balanced_run names htidy.pos fuel (c := start.load p) hloaded
  -- Besides the global frame, the live frames are those of the scopes that the tasks close.
  have hsize : m.env.frames.size = 1 + scopes ((start.load p).run names fuel).control :=
    hbalanced.size
  have hcalls : m.calls = 0 + activeCalls ((start.load p).run names fuel).control :=
    hbalanced.calls
  -- Those are the scopes of the innermost call, and of as many stretches as there are other calls.
  have hframes : m.env.frames.size ≤ 1 + (m.calls + 1) * p.nesting := by
    rw [hsize, hcalls, Nat.zero_add]
    refine Nat.add_le_add_left ?_ 1
    calc scopes ((start.load p).run names fuel).control
        ≤ openBlocks ((start.load p).run names fuel).control +
            activeCalls ((start.load p).run names fuel).control * p.nesting :=
          hnested.control.scopes_le
      _ ≤ p.nesting + activeCalls ((start.load p).run names fuel).control * p.nesting :=
          Nat.add_le_add_right hnested.control.openBlocks_le _
      _ = (activeCalls ((start.load p).run names fuel).control + 1) * p.nesting := by
          rw [Nat.succ_mul, Nat.add_comm]
  -- The live frames are the stored ones. And if the limit on calls leaves room, so do the calls.
  refine ⟨?_, fun hfits => ?_⟩
  · have hdepth : m.env.depth = m.env.frames.size := by
      rw [Environment.depth, hbalanced.tidy.live, Array.size_range]
    rw [hdepth]
    exact hframes
  · have hmost : m.calls ≤ maxCalls := by
      have hlimit : m.calls ≤ max 0 maxCalls := (Config.follows_run names fuel (start.load p)).calls
      rwa [Nat.zero_max] at hlimit
    have hproduct : (m.calls + 1) * p.nesting ≤ (maxCalls + 1) * p.nesting :=
      Nat.mul_le_mul_right _ (Nat.succ_le_succ hmost)
    omega

/-- A subroutine that calls itself from a loop, and is called from a loop in a loop. With as many calls
active as the limit allows, the bound is reached. -/
theorem depth_le_nesting_recursion :
    let x : Name := .empty
    let p : Program := [.sub x [.repeatTimes (.int 1) [.call x]],
      .repeatTimes (.int 1) [.repeatTimes (.int 1) [.call x]]]
    let m := ((({ Machine.initial .silent 3 with log := [] } : Machine).load p).run .initial 14).machine
    p.nesting = 2 ∧ m.calls = 3 ∧ m.env.depth = 1 + (m.calls + 1) * p.nesting ∧
      1 + (3 + 1) * p.nesting < UInt32.size ∧ m.env.frames.size < UInt32.size := by
  intro x p m
  have hfits : 1 + (3 + 1) * p.nesting < UInt32.size := by decide +kernel
  exact ⟨by decide +kernel, by decide +kernel, by decide +kernel, hfits,
    (depth_le_nesting .initial p .silent 3 [] 14).2 hfits⟩

end Silly
