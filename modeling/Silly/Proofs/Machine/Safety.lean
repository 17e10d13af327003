import Silly.Proofs.Display.Reread
import Silly.Proofs.Machine.Alike
import Silly.Source

/-!
# No run looks up what does not exist

A machine may run one source after the other in its global frame, with a table of names that grows
with each (`Machine.SourceSession`), and a source may end in any way. At no point of such a run is a
string, a name, a frame or an item of a list looked up that does not exist (`Progress.Safe`).

There is nothing to be proved about steps here. That a run comes to no fault is part of being alike to
some run, and a run of a source is alike to itself: the parser has put all names of the source in the
table, and has put subroutines at the top level only, so that each of them belongs to the global frame.
-/

namespace Silly

variable {names names' : Interner}

/-! ### The walk up the parents -/

namespace Environment

variable {α : Type} {env : Environment α}

/-- **The walk up the parents ends** where each parent is at a smaller place, and meets frames that are
stored only. -/
theorem search_ok (hparents : ∀ (id : Nat) f (p : Nat), env.frames[id]? = some f →
      f.parent = some p → p < id) (x : Name) {id bound : Nat} (hid : id < env.frames.size)
    (hbound : id < bound) :
    ∃ found, env.search x id bound = .ok found ∧
      ∀ place : Nat, found = some place → place < env.frames.size := by
  -- The bound stays above the place, as the places get smaller.
  induction bound generalizing id with
  | zero => exact absurd hbound (Nat.not_lt_zero _)
  | succ bound ih =>
    have hget : env.frames[id]? = some env.frames[id] := Array.getElem?_eq_getElem hid
    have hframe : env.frame id = .ok env.frames[id] := by rw [frame, hget]
    simp only [search, hframe]
    -- The frame declares the variable, or has no parent, or the walk goes on to a smaller place.
    by_cases hx : env.frames[id].declares x = true
    · rw [if_pos hx]
      exact ⟨_, rfl, fun place hplace => by cases hplace; exact hid⟩
    · rw [if_neg hx]
      cases hp : env.frames[id].parent with
      | none => exact ⟨none, rfl, fun place hplace => by cases hplace⟩
      | some p =>
        have hlt := hparents id _ p hget hp
        exact ih (Nat.lt_trans hlt hid) (Nat.lt_of_lt_of_le hlt (Nat.le_of_lt_succ hbound))

end Environment

/-! ### Where no statement is running -/

/-- Two environments with the global frame alone are alike. -/
theorem Environment.alike_initial {α : Type} (names names' : Interner) :
    Environment.Alike (α := α) names names' .initial .initial .initial .initial 0 where
  above := .refl tidy_initial
  above' := .refl tidy_initial
  frame id id' hid := by
    obtain ⟨rfl, rfl⟩ | ⟨i, hi, -⟩ := hid
    · exact ⟨_, _, rfl, rfl, Frame.alike_nil _ _, .global rfl rfl⟩
    · exact absurd hi (Nat.not_lt_zero i)

namespace Machine

variable {base base' m m' : Machine}

/-- A machine that has run nothing. -/
theorem alike_initial (names names' : Interner) (printer printer' : Printer) (maxCalls : Nat)
    (log log' : List Event) :
    Alike names names' { initial printer maxCalls with log := log }
      { initial printer' maxCalls with log := log' } { initial printer maxCalls with log := log }
      { initial printer' maxCalls with log := log' } 0 where
  env := Environment.alike_initial names names'
  heap := rfl
  valid := valid_initial printer maxCalls
  valid' := valid_initial printer' maxCalls
  subs := ⟨fun _ _ _ => .none, nofun, nofun⟩
  global := nofun
  calls := rfl
  maxCalls := rfl
  printed := ⟨[], rfl, rfl⟩

/-- **Where all frames are closed again** that were opened, the machines are alike as the start of what
comes next. -/
theorem Alike.rebase (h : Alike names names' base base' m m' 0) :
    Alike names names' m m' m m' 0 where
  __ := h
  env := by
    -- Nothing was opened in between, so the counterparts are the same frames.
    have hsize : m.env.frames.size = base.env.frames.size := h.env.above.size
    have hsize' : m'.env.frames.size = base'.env.frames.size := h.env.above'.size
    refine ⟨.refl h.env.above.tidy, .refl h.env.above'.tidy, ?_⟩
    rw [hsize, hsize']
    exact h.env.frame
  printed := ⟨[], rfl, rfl⟩

/-- What a program adds to the log when it ends makes no difference. -/
theorem Alike.halt {d : Nat} (h : Alike names names' base base' m m' d) (status : Status) :
    Alike names names' base base' (m.halt status) (m'.halt status) d := by
  unfold Machine.halt
  split
  · exact h
  · exact h.note _ _

/-- **Names may be added to the table** of a machine that is alike to itself. -/
theorem Alike.extend (he : names.Extends names') (h : Alike names names m m m m 0) :
    Alike names' names' m m m m 0 where
  __ := h
  env := by
    refine ⟨h.env.above, h.env.above, fun id id' hid => ?_⟩
    obtain ⟨f, f', hget, hget', halike, hparents⟩ := h.env.frame id id' hid
    -- Both are the global frame, which is what it was.
    obtain rfl : id = id' := by
      obtain ⟨rfl, rfl⟩ | ⟨i, hi, -⟩ := hid
      · rfl
      · exact absurd hi (Nat.not_lt_zero i)
    obtain rfl : f = f' := Option.some.inj (hget.symm.trans hget')
    exact ⟨f, f, hget, hget, halike.extend he, hparents⟩
  subs := h.subs.extend he

/-! ### Sources that are run one after the other -/

/-- **A machine that has run sources**, one after the other in its global frame, each to its end,
whatever that was. The table of names is that of the machine all along, and grows. -/
inductive SourceSession : Interner → Machine → Prop
  | start (names : Interner) (printer : Printer) (maxCalls : Nat) (log : List Event) :
      SourceSession names { Machine.initial printer maxCalls with log := log }
  /-- Names are added, as reading a source does. -/
  | extend {names names' : Interner} {m : Machine} (hm : SourceSession names m)
      (he : names.Extends names') : SourceSession names' m
  | run {names names' : Interner} {m m' : Machine} {source : String} {p : Program} {fuel : Nat}
      {result : Outcome Status} (hm : SourceSession names m)
      (hp : parse source names = (.ok p, names'))
      (hrun : m.run names' fuel p = .finished result m') : SourceSession names' m'

/-- **Alike programs are the start of alike runs** where only the global frames are live. -/
theorem Alike.load (h : Alike names names' m m' m m' 0) (halone : Alone m m') {p p' : Program}
    (hp : ProgramAlike (names.SameText names') p p') :
    Config.Alike names names' m m' (m.load p) (m'.load p') where
  signal := rfl
  faultless := faultless_ok _
  control := .program rfl halone hp .nil
  machine := h

/-- **Between sources** a machine is alike to itself, and only the global frame is live. -/
theorem SourceSession.alike (hm : SourceSession names m) :
    -- By the way in which the session has come about: its start, further names, and each run.
    Alike names names m m m m 0 ∧ Alone m m := by
  induction hm with
  | start names printer maxCalls log =>
    exact ⟨alike_initial names names printer printer maxCalls log log, rfl, rfl⟩
  | extend _ he ih => exact ⟨ih.1.extend he, ih.2⟩
  | @run names names' m m' source p fuel result _ hp hrun ih =>
    obtain ⟨halike, halone⟩ := ih
    have hload := (halike.extend (extends_of_parse hp)).load halone (alike_self_of_parse hp)
    have hend := hload.run fuel
    -- However the run ended, all frames are closed, and a line in the log is all that comes after.
    have hlast : Alike names' names' m m m' m' 0 := by
      unfold Machine.run at hrun
      revert hend hrun
      generalize (m.load p).run names' fuel = progress
      intro hrun hend
      cases hend with
      | running => cases hrun
      | @finished result₁ m₁ _ _ hm₁ =>
        cases result₁ with
        | error s =>
          cases hrun
          exact hm₁
        | ok status =>
          cases hrun
          exact hm₁.halt status
    have hsize : m'.env.frames.size = 1 := hlast.env.above.size.trans halone.1
    exact ⟨hlast.rebase, hsize, hsize⟩

/-- **A run of a source in a session is alike to itself** at every point. -/
theorem SourceSession.alike_run (hm : SourceSession names m) {source : String} {p : Program}
    (hp : parse source names = (.ok p, names')) (fuel : Nat) :
    Progress.Alike names' names' m m ((m.load p).run names' fuel)
      ((m.load p).run names' fuel) := by
  obtain ⟨halike, halone⟩ := hm.alike
  exact ((halike.extend (extends_of_parse hp)).load halone (alike_self_of_parse hp)).run fuel

end Machine

/-! ### Safe points -/

/-- What the last statement of a run came to. -/
def Progress.signal : Progress → Outcome Status
  | .finished result _ => result
  | .running c => c.signal

/-- **A point of a run at which nothing is missing.** -/
structure Progress.Safe (names : Interner) (r : Progress) : Prop where
  /-- The last step has looked up nothing that does not exist. -/
  faultless : Faultless r.signal
  /-- The frames that are stored are the live ones. -/
  live : r.machine.env.live = Array.range r.machine.env.frames.size
  /-- Every subroutine belongs to the global frame, which is live. -/
  subs : ∀ x sub, r.machine.subs.lookup x = some sub →
    sub.scope = FrameId.global ∧ sub.scope ∈ r.machine.env.live
  /-- Every parent is at a smaller place, so it is live. -/
  parents : ∀ (id : Nat) f, r.machine.env.frames[id]? = some f →
    (id = FrameId.global ∧ f.parent = none) ∨ ∃ p < id, f.parent = some p
  /-- A variable is found in a frame that is stored, if it is found. -/
  find : ∀ x, ∃ found, r.machine.env.find x = .ok found ∧
    ∀ place : Nat, found = some place → place < r.machine.env.frames.size
  /-- The heap has given out every handle in the value of a variable. -/
  valid : r.machine.Valid
  /-- The names of the variables and of the subroutines are in the table. -/
  declared : ∀ (id : Nat) f, r.machine.env.frames[id]? = some f → ∀ x, f.declares x = true →
    (names.text? x).isSome = true
  defined : ∀ x, (r.machine.subs.lookup x).isSome = true → (names.text? x).isSome = true

theorem Interner.SameText.isSome {x x' : Name} (h : names.SameText names' x x') :
    (names.text? x).isSome = true := by
  obtain ⟨s, hs, -⟩ := h
  exact Option.isSome_iff_exists.mpr ⟨s, hs⟩

/-- The machines of alike runs are alike. -/
theorem Progress.Alike.machine {base base' : Machine} {r r' : Progress}
    (h : Progress.Alike names names' base base' r r') :
    Machine.Alike names names' base base' r.machine r'.machine (scopes r.control) := by
  cases h with
  | finished _ hm => exact hm
  | running hc => exact hc.machine

/-- **Alike runs come to no fault.** -/
theorem Progress.Alike.faultless {base base' : Machine} {r r' : Progress}
    (h : Progress.Alike names names' base base' r r') : Faultless r.signal := by
  cases h with
  | finished hsignal _ => exact hsignal
  | running hc => exact hc.faultless

/-- **A run that is alike to itself is safe**, if it started where only the global frame was live: then
each frame is its own counterpart. -/
theorem Progress.Alike.safe {m : Machine} {r : Progress}
    (h : Progress.Alike names names m m r r) (halone : Alone m m) : r.Safe names := by
  have hm := h.machine
  have hframe (id : Nat) (f : Frame Value) (hget : r.machine.env.frames[id]? = some f) :
      f.Alike names names f ∧ ((id = FrameId.global ∧ f.parent = none) ∨
        ∃ p < id, f.parent = some p) := by
    -- Every frame that is stored is the global one or was opened since.
    have hid : Counterparts m.env.frames.size m.env.frames.size (scopes r.control) id id := by
      have hlt : id < r.machine.env.frames.size := (Array.getElem?_eq_some_iff.mp hget).1
      rw [hm.env.above.size] at hlt
      rw [halone.1] at hlt ⊢
      by_cases hzero : id = 0
      · exact .inl ⟨hzero, hzero⟩
      · exact .inr ⟨id - 1, by omega, by omega, by omega⟩
    obtain ⟨g, g', hg, hg', halike, hparents⟩ := hm.env.frame id id hid
    obtain rfl : f = g := Option.some.inj (hget.symm.trans hg)
    obtain rfl : f = g' := Option.some.inj (hget.symm.trans hg')
    refine ⟨halike, ?_⟩
    revert hparents
    generalize f.parent = parent
    intro hparents
    cases hparents with
    | global hid => exact .inl ⟨hid, rfl⟩
    | @inside p _ _ hlt => exact .inr ⟨p, hlt, rfl⟩
  -- Each part of safety is read off the machine's likeness to itself.
  refine ⟨h.faultless, hm.env.above.tidy.live, fun x sub hsub => ?_, fun id f hget => (hframe id f hget).2,
    fun x => ?_, hm.valid, fun id f hget x hx => ?_, fun x hx => ?_⟩
  · have hscope := hm.global x sub hsub
    refine ⟨hscope, ?_⟩
    rw [hscope, hm.env.above.tidy.mem_live]
    exact hm.env.above.tidy.pos
  -- The innermost frame is stored, so the walk from it ends, and meets only stored frames.
  · have hlast : r.machine.env.current < r.machine.env.frames.size := by
      rw [hm.env.above.tidy.current_eq]
      exact Nat.sub_one_lt_of_lt hm.env.above.tidy.pos
    refine Environment.search_ok (fun id f p hget hp => ?_) x hlast hlast
    obtain ⟨-, hnone⟩ | ⟨q, hq, hsome⟩ := (hframe id f hget).2
    · cases hp.symm.trans hnone
    · obtain rfl : p = q := Option.some.inj (hp.symm.trans hsome)
      exact hq
  · obtain ⟨x', hx'⟩ := (hframe id f hget).1.known x hx
    exact hx'.isSome
  · obtain ⟨x', hx'⟩ := hm.subs.known x hx
    exact hx'.isSome

/-! ### Sources -/

/-- What is run of a source is a program that was read, in a machine that has run nothing. -/
theorem exists_of_load {source : String} {options : Options} {printer : Printer} {loaded : Loaded}
    {log : List Event} (h : load source options printer = (.ok loaded, log)) :
    ∃ p, parse source .initial = (.ok p, loaded.names) ∧
      loaded.config = { Machine.initial printer options.maxCalls with log := log }.load p := by
  have hparse : parse source .initial = ((Parser.ofSource source .initial).program.1,
      (Parser.ofSource source .initial).program.2.names) := rfl
  -- Loading reads the source into a program and is otherwise the start of a machine.
  unfold load at h
  revert h hparse
  obtain ⟨result, parser⟩ := (Parser.ofSource source .initial).program
  intro h hparse
  cases result with
  | error e => cases h
  | ok p =>
    cases h
    exact ⟨p, hparse, rfl⟩

/-- A source that is read is ready to run. -/
theorem load_of_parse {source : String} {p : Program}
    (h : parse source .initial = (.ok p, names)) (options : Options) (printer : Printer) :
    ∃ log, load source options printer = (.ok ⟨names,
      { Machine.initial printer options.maxCalls with log := log }.load p⟩, log) := by
  have hparse : parse source .initial = ((Parser.ofSource source .initial).program.1,
      (Parser.ofSource source .initial).program.2.names) := rfl
  rw [hparse] at h
  unfold load
  revert h
  obtain ⟨result, parser⟩ := (Parser.ofSource source .initial).program
  intro h
  cases h
  exact ⟨_, rfl⟩

/-- **No source makes the interpreter look up what does not exist.** Whatever the source is, every
point of its run is safe, and so is every point of the run of a further source in the same machine,
however those before it ended. A list or a string is indexed only where it has an item. -/
theorem runs_are_safe :
    (∀ source options printer loaded log, load source options printer = (.ok loaded, log) →
      ∀ fuel, (loaded.config.run loaded.names fuel).Safe loaded.names) ∧
    (∀ names m, Machine.SourceSession names m → ∀ source p names',
      parse source names = (.ok p, names') → ∀ fuel, ((m.load p).run names' fuel).Safe names') ∧
    ∀ {α : Type} (xs : List α) (i : Int64),
      (∃ (n : Nat) (h : n < xs.length), (n : Int) = i.toInt ∧ itemAt xs i = .ok (xs.get ⟨n, h⟩)) ∨
        (itemAt xs i = Outcome.fail (.indexOutOfRange i xs.length) ∧
          ∀ n : Nat, (n : Int) = i.toInt → xs.length ≤ n) := by
  refine ⟨fun source options printer loaded log hload fuel => ?_,
    fun names m hm source p names' hp fuel => ?_, itemAt_cases⟩
  -- A source that is run by itself is the first one of a session.
  · obtain ⟨p, hp, hconfig⟩ := exists_of_load hload
    have hstart := Machine.SourceSession.start .initial printer options.maxCalls log
    rw [hconfig]
    exact (hstart.alike_run hp fuel).safe hstart.alike.2
  · exact (hm.alike_run hp fuel).safe hm.alike.2

/-- A source that fails, by itself and when it is run a second time in the same machine. -/
theorem runs_are_safe_after_error :
    let p : Program := [.repeatTimes (.bool true) []]
    let source := p.display fun _ => ""
    let names := (parse source .initial).2
    let names' := (parse source names).2
    ∃ loaded log m, load source .default .silent = (.ok loaded, log) ∧
      loaded.config.run loaded.names 2 =
        .finished (.error (.error (.typeMismatch .repeatCount [.boolean]))) m ∧
      (∀ fuel, (loaded.config.run loaded.names fuel).Safe loaded.names) ∧
      ∀ fuel, ((m.load p).run names' fuel).Safe names' := by
  intro p source names names'
  have hwell (table : Interner) : p.WellFormed table := by
    intro s hs
    obtain rfl := List.mem_singleton.mp hs
    exact ⟨trivial, trivial⟩
  -- There are no names in the tree, so its text is the same with all tables.
  have hparse (table : Interner) : parse source table = (.ok p, (parse source table).2) := by
    have hdisplay : p.display table.text = source := rfl
    exact parse_eq_of_ok (hdisplay ▸ parse_display (hwell table))
  obtain ⟨log, hload⟩ := load_of_parse (hparse .initial) .default .silent
  have hstart : Machine.SourceSession .initial
      { Machine.initial .silent Machine.defaultMaxCalls with log := log } := .start _ _ _ log
  obtain ⟨m, hrun⟩ : ∃ m, Machine.run names 2
      { Machine.initial .silent Machine.defaultMaxCalls with log := log } p =
        .finished (.error (.error (.typeMismatch .repeatCount [.boolean]))) m := ⟨_, rfl⟩
  have hsession : Machine.SourceSession names m := hstart.run (hparse .initial) hrun
  exact ⟨_, log, m, hload, hrun, runs_are_safe.1 _ _ _ _ _ hload,
    runs_are_safe.2.1 names m hsession source p names' (hparse names)⟩

end Silly
