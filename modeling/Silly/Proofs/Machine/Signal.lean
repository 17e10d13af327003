import Silly.Proofs.Machine.Rules
import Silly.Proofs.Tree.Parts

/-!
# Where `break` and `exit` come from

A statement finishes with `break` or `exit` only because one of these statements has run. Which one, the
program says: no status is raised by anything else.

A loop heeds `break`, so it never finishes with it (`execute_loop_ne_break`). That is a matter of the tasks
alone. The loop is the last of those that were put before the end of its block, so whatever its body does
and whatever is called there comes to the loop in the end, and `break` goes no further.

So a `break` that ends a run has met no loop. The tasks say which loop it would meet: the next one, unless
a call ends before it is reached (`inLoop`). As a statement is left to run just where the program has it,
inside a loop or not (`Sourced`), a `break` that meets no loop is one that stands in none.
-/

namespace Silly

variable {names : Interner} {m m' : Machine} {signal signal' : Outcome Status} {k ts : List Task}

/-! ### Loops -/

/-- A task that is a loop. -/
def Task.IsLoop : Task → Prop
  | .whileDo _ _ | .repeatTimes _ _ => True
  | _ => False

/-- **Tasks of which a loop is the last**, before the end of the block that it stands in, or what is left
of them when the loop is over. It is not over with `break`. -/
def EndsInLoop (signal : Outcome Status) (k : List Task) : Prop :=
  (∃ ts loop, loop.IsLoop ∧ k = ts ++ [loop, .run []]) ∨
    signal ≠ .ok .break ∧ (k = [.run []] ∨ k = [])

/-- **What a loop leaves**: itself once more, after its body, or nothing, and then no `break`. -/
theorem Task.Leaves.of_isLoop {task : Task} (h : task.Leaves names m signal signal' ts m')
    (hloop : task.IsLoop) :
    (∃ body loop, loop.IsLoop ∧ ts = [.run body, .leaveScope, loop]) ∨
      ts = [] ∧ signal' ≠ .ok .break := by
  cases h with
  | @whileAgain cond body => exact .inl ⟨body, .whileDo cond body, trivial, rfl⟩
  | @repeatAgain left body => exact .inl ⟨body, .repeatTimes left body, trivial, rfl⟩
  | whileUntested => exact .inr ⟨rfl, nofun⟩
  | whileOver | whileBreak | repeatOver | repeatBreak => exact .inr ⟨rfl, nofun⟩
  | whileLeft _ hbreak => exact .inr ⟨rfl, hbreak⟩
  | repeatLeft _ hbreak => exact .inr ⟨rfl, hbreak⟩
  | start | ended | dropped | leaveScope | leaveCall => exact hloop.elim

/-- **A step** comes to the loop, or is one of the loop itself. -/
theorem Task.Leaves.endsInLoop {task : Task} (h : task.Leaves names m signal signal' ts m')
    (hk : EndsInLoop signal (task :: k)) : EndsInLoop signal' (ts ++ k) := by
  -- The loop is next, or some task of its body is.
  obtain ⟨ts₀, loop, hloop, hts⟩ | ⟨hsignal, hrest⟩ := hk
  · cases ts₀ with
    | nil =>
      obtain ⟨rfl, rfl⟩ := List.cons.inj hts
      obtain ⟨body, loop', hloop', rfl⟩ | ⟨rfl, hsignal'⟩ := h.of_isLoop hloop
      · exact .inl ⟨[.run body, .leaveScope], loop', hloop', rfl⟩
      · exact .inr ⟨hsignal', .inl rfl⟩
    | cons task' ts₀ =>
      -- The task before the loop leaves others before it.
      obtain ⟨rfl, rfl⟩ := List.cons.inj hts
      exact .inl ⟨ts ++ ts₀, loop, hloop, (List.append_assoc ..).symm⟩
  · -- The loop is over, and all that is left is the end of its block.
    obtain hk | hk := hrest
    · obtain ⟨rfl, rfl⟩ := List.cons.inj hk
      cases h with
      | ended => exact .inr ⟨hsignal, .inr rfl⟩
      | dropped => exact .inr ⟨hsignal, .inr rfl⟩
    · cases hk

/-- A statement that is a loop. -/
def Stmt.IsLoop : Stmt → Prop
  | .whileDo _ _ | .repeatTimes _ _ => True
  | _ => False

/-- **No loop finishes with `break`**, whatever its body does and whatever it calls. -/
theorem execute_loop_ne_break {s : Stmt} (hs : s.IsLoop) (names : Interner) (fuel : Nat)
    (m m' : Machine) : m.execute names fuel s ≠ .finished (.ok .break) m' := by
  intro h
  cases fuel with
  | zero => cases h
  | succ fuel =>
    obtain ⟨signal, ts, m₁, hleaves, hstart⟩ := s.comesTo_start names m
    have hrun : Config.run names fuel ⟨signal, ts ++ [.run []], m₁⟩ = .finished (.ok .break) m' := by
      rw [← hstart]
      exact h
    -- A loop begins with itself as the next task, or fails.
    have hbegun : EndsInLoop signal (ts ++ [.run []]) := by
      cases hleaves with
      | @whileDo cond body => exact .inl ⟨[], .whileDo cond body, trivial, rfl⟩
      | @repeatTimes count body v n =>
        exact .inl ⟨[], .repeatTimes n.toInt.toNat body, trivial, rfl⟩
      | uncounted | countless => exact .inr ⟨nofun, .inl rfl⟩
      | _ => exact hs.elim
    have hend := Config.run_preserves names (P := fun signal k _ => EndsInLoop signal k)
      (fun _ _ _ _ _ _ _ hk hstep => hstep.endsInLoop hk) fuel
      (c := ⟨signal, ts ++ [.run []], m₁⟩) hbegun
    rw [hrun] at hend
    obtain ⟨ts₀, loop, -, hnil⟩ | ⟨hne, -⟩ := hend
    · have happend : ts₀ ++ [loop, .run []] = [] := hnil.symm
      cases (List.append_eq_nil_iff.mp happend).2
    · exact hne rfl

/-! ### Statements where the program has them -/

/-- **Whether a loop is the next to heed a `break`**, which no loop outside the innermost call does. -/
def inLoop : List Task → Bool
  | [] | .leaveCall :: _ => false
  | .whileDo _ _ :: _ | .repeatTimes _ _ :: _ => true
  | .run _ :: k | .leaveScope :: k => inLoop k

/-- **Tasks that run statements among `parts`**, each in a loop if it is in one there. -/
def RunsParts (parts : List (Bool × Stmt)) : List Task → Prop
  | [] => True
  | .run ss :: k => blockParts (inLoop k) ss ⊆ parts ∧ RunsParts parts k
  | .whileDo _ body :: k | .repeatTimes _ body :: k =>
    blockParts true body ⊆ parts ∧ RunsParts parts k
  | .leaveScope :: k | .leaveCall :: k => RunsParts parts k

/-- **A point of a run of statements among `parts`.** -/
structure Sourced (parts : List (Bool × Stmt)) (signal : Outcome Status) (k : List Task)
    (m : Machine) : Prop where
  control : RunsParts parts k
  /-- The body of a subroutine is in no loop. -/
  subs : ∀ x sub, m.subs.lookup x = some sub → blockParts false sub.body ⊆ parts
  /-- A `break` meets a loop, or is one that stands in none. -/
  broken : signal = .ok .break → inLoop k = false → (false, .breakLoop) ∈ parts
  exited : signal = .ok .exit → ∃ looped, (looped, .exit) ∈ parts

namespace Sourced

variable {parts : List (Bool × Stmt)} {body : Block}

/-- **What is over** with neither `break` nor `exit`. -/
theorem finish (h : Sourced parts (.ok .ok) k m) (hsubs : m'.subs = m.subs)
    (hbreak : signal ≠ .ok .break) (hexit : signal ≠ .ok .exit) : Sourced parts signal k m' where
  control := h.control
  subs := hsubs ▸ h.subs
  broken hsignal := absurd hsignal hbreak
  exited hsignal := absurd hsignal hexit

/-- **A block begins** in as many loops as it stands in. -/
theorem enter (h : Sourced parts (.ok .ok) k m) (hsubs : m'.subs = m.subs)
    (hbody : blockParts (inLoop k) body ⊆ parts) :
    Sourced parts (.ok .ok) (.run body :: .leaveScope :: k) m' where
  control := ⟨hbody, h.control⟩
  subs := hsubs ▸ h.subs
  broken := nofun
  exited := nofun

/-- **A loop begins**, or begins its body again. -/
theorem loop {task : Task} (h : Sourced parts (.ok .ok) k m) (hsubs : m'.subs = m.subs)
    (htask : RunsParts parts (task :: k)) : Sourced parts (.ok .ok) (task :: k) m' where
  control := htask
  subs := hsubs ▸ h.subs
  broken := nofun
  exited := nofun

end Sourced

section Steps

variable {parts : List (Bool × Stmt)}

/-- **The arms of an `if`** are in no other loop than the `if`. -/
theorem Arms.Leaves.sourced {arms : Arms} (h : arms.Leaves names m signal ts m')
    (harms : arms.parts (inLoop k) ⊆ parts) (hm : Sourced parts (.ok .ok) k m) :
    Sourced parts signal (ts ++ k) m' := by
  induction h with
  | done => exact hm
  | otherwise => exact hm.enter rfl harms
  | untested htest =>
    obtain ⟨heap, rfl⟩ := Machine.eq_of_test htest
    exact hm.finish rfl nofun nofun
  | holds htest =>
    obtain ⟨heap, rfl⟩ := Machine.eq_of_test htest
    -- The body is one of those of the arms.
    exact hm.enter rfl (List.append_subset.mp harms).1
  | fails htest _ ih =>
    obtain ⟨heap, rfl⟩ := Machine.eq_of_test htest
    exact ih (List.append_subset.mp harms).2 (hm.finish rfl nofun nofun)

/-- **A call** begins the body of a subroutine, which no loop around the call is a loop of. -/
theorem Machine.Invokes.sourced {name : String} {sub : Option Subroutine}
    (h : m.Invokes name sub signal ts m')
    (hsub : ∀ s, sub = some s → blockParts false s.body ⊆ parts)
    (hm : Sourced parts (.ok .ok) k m) : Sourced parts signal (ts ++ k) m' := by
  cases h with
  | undefined => exact hm.finish rfl nofun nofun
  | limited => exact hm.finish rfl nofun nofun
  | unscoped _ hscope =>
    obtain ⟨-, rfl⟩ := eq_of_enterScopeIn_error hscope
    exact hm.finish rfl nofun nofun
  | @entered sub m₁ _ hscope =>
    obtain ⟨-, rfl⟩ := eq_of_enterScopeIn hscope
    -- The end of the call stands behind the body, so no loop around it is counted.
    exact ⟨⟨hsub sub rfl, hm.control⟩, hm.subs, nofun, nofun⟩

/-- Evaluating and storing neither break nor exit. -/
theorem Machine.Stores.sourced {x : Name} {e : Expr} (h : m.Stores names x e signal m')
    (hm : Sourced parts (.ok .ok) k m) : Sourced parts signal k m' := by
  cases h with
  | unevaluated heval =>
    obtain ⟨heap, rfl⟩ := eq_of_eval heval
    exact hm.finish rfl nofun nofun
  | unstored heval hstore =>
    obtain ⟨heap, rfl⟩ := eq_of_eval heval
    obtain ⟨-, rfl⟩ := eq_of_store hstore
    exact hm.finish rfl nofun nofun
  | stored heval hstore =>
    obtain ⟨heap, rfl⟩ := eq_of_eval heval
    obtain ⟨-, rfl⟩ := eq_of_store hstore
    exact hm.finish rfl nofun nofun

/-- **A statement** runs parts of its own, and raises what it is. -/
theorem Stmt.Leaves.sourced {s : Stmt} (h : s.Leaves names m signal ts m')
    (hs : s.parts (inLoop k) ⊆ parts) (hm : Sourced parts (.ok .ok) k m) :
    Sourced parts signal (ts ++ k) m' := by
  -- The statement itself is one of its parts.
  have hself : (inLoop k, s) ∈ parts := hs (s.mem_parts _)
  cases h with
  | assign _ hstores => exact hstores.sourced hm
  | declare hdeclare hstores =>
    obtain ⟨-, rfl⟩ := Machine.eq_of_declare hdeclare
    exact hstores.sourced (hm.finish rfl nofun nofun)
  | ifElse harms => exact harms.sourced (List.cons_subset.mp hs).2 hm
  | whileDo => exact hm.loop rfl ⟨(List.cons_subset.mp hs).2, hm.control⟩
  | repeatTimes heval =>
    obtain ⟨heap, rfl⟩ := Machine.eq_of_eval heval
    exact hm.loop rfl ⟨(List.cons_subset.mp hs).2, hm.control⟩
  | @sub x body name _ hx =>
    refine ⟨hm.control, fun y sub hy => ?_, nofun, nofun⟩
    -- The table has the new subroutine before those that it had.
    obtain rfl | hold := Machine.eq_or_lookup_of_addSub hy
    · exact (List.cons_subset.mp hs).2
    · exact hm.subs y sub hold
  | @call x name _ _ _ _ hinvokes =>
    exact hinvokes.sourced (hm.subs x) (hm.finish rfl nofun nofun)
  -- These two raise what they are, and each is a part of the program by itself.
  | exit => exact ⟨hm.control, hm.subs, nofun, fun _ => ⟨_, hself⟩⟩
  | breakLoop => exact ⟨hm.control, hm.subs, fun _ hk => hk ▸ hself, nofun⟩
  | print heval =>
    obtain ⟨heap, rfl⟩ := Machine.eq_of_eval heval
    exact hm.finish rfl nofun nofun
  | undeclared hdeclare =>
    obtain ⟨-, rfl⟩ := Machine.eq_of_declare hdeclare
    exact hm.finish rfl nofun nofun
  | unevaluated heval | uncounted heval | unprinted heval | countless heval =>
    obtain ⟨heap, rfl⟩ := Machine.eq_of_eval heval
    exact hm.finish rfl nofun nofun
  | _ => exact hm.finish rfl nofun nofun

/-- **A step** leaves statements to run just where the program has them. -/
theorem Task.Leaves.sourced {task : Task} (h : task.Leaves names m signal signal' ts m')
    (hm : Sourced parts signal (task :: k) m) : Sourced parts signal' (ts ++ k) m' := by
  obtain ⟨hcontrol, hsubs, hbroken, hexited⟩ := hm
  cases h with
  | @start s rest signal ts _ hs =>
    -- The parts of the block are those of its first statement and those of the others.
    have hparts := List.append_subset.mp hcontrol.1
    have hrest : Sourced parts (.ok .ok) (.run rest :: k) m :=
      ⟨⟨hparts.2, hcontrol.2⟩, hsubs, nofun, nofun⟩
    rw [List.append_assoc, List.singleton_append]
    exact hs.sourced hparts.1 hrest
  | ended => exact ⟨hcontrol.2, hsubs, hbroken, hexited⟩
  | dropped => exact ⟨hcontrol.2, hsubs, hbroken, hexited⟩
  | leaveScope => exact ⟨hcontrol, hsubs, hbroken, hexited⟩
  | leaveCall =>
    -- No loop around the call heeds a `break` that ends the call, so it stands in none.
    exact ⟨hcontrol, hsubs, fun hsignal _ => hbroken hsignal rfl, hexited⟩
  | whileUntested htest =>
    obtain ⟨heap, rfl⟩ := Machine.eq_of_test htest
    exact ⟨hcontrol.2, hsubs, nofun, nofun⟩
  -- The body is run again, in the same loop as the time before.
  | whileAgain htest =>
    obtain ⟨heap, rfl⟩ := Machine.eq_of_test htest
    exact ⟨⟨hcontrol.1, hcontrol⟩, hsubs, nofun, nofun⟩
  | whileOver htest =>
    obtain ⟨heap, rfl⟩ := Machine.eq_of_test htest
    exact ⟨hcontrol.2, hsubs, nofun, nofun⟩
  | repeatAgain => exact ⟨⟨hcontrol.1, hcontrol⟩, hsubs, nofun, nofun⟩
  | whileBreak | repeatOver | repeatBreak => exact ⟨hcontrol.2, hsubs, nofun, nofun⟩
  | whileLeft _ hbreak => exact ⟨hcontrol.2, hsubs, fun h => absurd h hbreak, hexited⟩
  | repeatLeft _ hbreak => exact ⟨hcontrol.2, hsubs, fun h => absurd h hbreak, hexited⟩

end Steps

/-! ### Programs -/

/-- **A run of a program** from the start runs the statements of the program. -/
theorem sourced_run (names : Interner) (p : Program) (printer : Printer) (maxCalls : Nat)
    (log : List Event) (fuel : Nat) :
    let r := (({ Machine.initial printer maxCalls with log := log } : Machine).load p).run names fuel
    Sourced p.parts r.signal r.control r.machine := by
  intro r
  -- All statements of the program are its own parts, and there are no subroutines.
  have hstart : Sourced p.parts (.ok .ok) [.run p]
      { Machine.initial printer maxCalls with log := log } :=
    ⟨⟨fun _ h => h, trivial⟩, nofun, nofun, nofun⟩
  exact Config.run_preserves names (P := Sourced p.parts)
    (fun _ _ _ _ _ _ _ hm hstep => hstep.sourced hm) fuel
    (c := Machine.load { Machine.initial printer maxCalls with log := log } p) hstart

/-- **Control signals come from their statements.** A loop never finishes with `break`, in whatever
machine it is executed. A source that is run from the start finishes with `break` only if it has a `break`
that no loop of its own top-level statement or subroutine stands around, and with `exit` only if it has an
`exit`. If it has neither, it ends with `ok` or with an error of the program. -/
theorem signals_come_from_statements :
    (∀ names fuel (m m' : Machine) cond body,
      m.execute names fuel (.whileDo cond body) ≠ .finished (.ok .break) m') ∧
    (∀ names fuel (m m' : Machine) count body,
      m.execute names fuel (.repeatTimes count body) ≠ .finished (.ok .break) m') ∧
    ∀ source names₀ p names, parse source names₀ = (.ok p, names) →
      ∀ printer maxCalls log fuel result m',
        Machine.run names fuel { Machine.initial printer maxCalls with log := log } p =
            .finished result m' →
          (result = .ok .break → (false, .breakLoop) ∈ p.parts) ∧
          (result = .ok .exit → ∃ looped, (looped, .exit) ∈ p.parts) ∧
          ((∀ looped, (looped, .breakLoop) ∉ p.parts ∧ (looped, .exit) ∉ p.parts) →
            result = .ok .ok ∨ ∃ e, result = .error (.error e)) := by
  refine ⟨fun names fuel m m' cond body => ?_, fun names fuel m m' count body => ?_, ?_⟩
  · exact execute_loop_ne_break (s := .whileDo cond body) trivial names fuel m m'
  · exact execute_loop_ne_break (s := .repeatTimes count body) trivial names fuel m m'
  intro source names₀ p names hp printer maxCalls log fuel result m' hrun
  obtain ⟨m₁, hload, -⟩ := (Machine.run_eq_finished_iff names).mp hrun
  have hsourced := sourced_run names p printer maxCalls log fuel
  have hsession := Machine.SourceSession.start names₀ printer maxCalls log
  have hfaultless := (hsession.alike_run hp fuel).faultless
  rw [hload] at hsourced hfaultless
  -- No task is left at the end, so no loop would heed a `break`.
  have hbroken (h : result = .ok .break) : (false, .breakLoop) ∈ p.parts :=
    hsourced.broken h rfl
  have hexited (h : result = .ok .exit) : ∃ looped, (looped, .exit) ∈ p.parts :=
    hsourced.exited h
  refine ⟨hbroken, hexited, fun hnone => ?_⟩
  -- A run of a source comes to no fault, and its signal is one of the others.
  obtain (e | f) | (_ | _ | _) := result
  · exact .inr ⟨e, rfl⟩
  · exact absurd rfl (hfaultless f)
  · exact .inl rfl
  · exact absurd (hbroken rfl) (hnone false).1
  · obtain ⟨looped, hexit⟩ := hexited rfl
    exact absurd hexit (hnone looped).2

/-- A subroutine whose body is `break`. Called in a loop it ends the loop, and called after it the whole
program. -/
theorem signals_come_from_statements_call :
    let source := "sub f break endsub repeat 2 times call f endrepeat call f print 1"
    ∃ p names m, parse source .initial = (.ok p, names) ∧
      Machine.run names 30 (Machine.initial (.buffer "") 8) p = .finished (.ok .break) m ∧
      m.printer.held = "" ∧ (false, .breakLoop) ∈ p.parts := by
  intro source
  let names := (parse source .initial).2
  have hrun : ((parse source .initial).1.toOption.map fun p =>
      let r := Machine.run names 30 (Machine.initial (.buffer "") 8) p
      (r.result?, r.machine.printer.held)) = some (some (.ok .break), "") := by decide +kernel
  clear_value source
  obtain ⟨p, hp, hbreak⟩ := Option.map_eq_some_iff.mp hrun
  have hparse : parse source .initial = (.ok p, names) := by
    refine parse_eq_of_ok ?_
    revert hp
    cases (parse source .initial).1 with
    | error e => exact fun h => by cases h
    | ok p => exact fun h => congrArg _ (Option.some.inj h)
  obtain ⟨hresult, hheld⟩ := Prod.mk.inj hbreak
  obtain ⟨m, hm⟩ := Progress.exists_of_result? hresult
  rw [hm] at hheld
  have hsources := signals_come_from_statements.2.2 source .initial p names hparse (.buffer "") 8 [] 30
    (.ok .break) m hm
  exact ⟨p, names, m, hparse, hm, hheld, hsources.1 rfl⟩

end Silly
