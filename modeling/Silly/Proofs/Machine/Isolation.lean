import Silly.Proofs.Machine.Safety

/-!
# A call does not see where it is made

The body of a subroutine runs in a frame inside the global one. What is live besides the global frame
where the call is made is out of its reach. So a call that is made at two points that agree in all else
(`Machine.SameGlobals`) comes to the same in both, and leaves the other frames of both as they were
(`call_sees_globals_only`).

The two points may be points of different sources in different machines, each with names of its own. It
is the texts that have to agree and not their numbers. The frames that are live may be other frames in
any number, with other variables.

The proof takes the two points themselves as the start of two alike runs. Nothing that can run next to
the call stands in the frames that are innermost there, so these need not be alike.
-/

namespace Silly

variable {names names' : Interner} {m m' n n' : Machine}

namespace Machine

/-- **A machine at some point of a run** of a source in a session, with the names that it has there. -/
def Reached (names : Interner) (m : Machine) : Prop :=
  ∃ names₀ m₀ source p fuel, SourceSession names₀ m₀ ∧ parse source names₀ = (.ok p, names) ∧
    ((m₀.load p).run names fuel).machine = m

/-- **Two machines that agree in what a subroutine can see**: the variables of the global frame, the
heap, the subroutines, the number of active calls and its limit. -/
structure SameGlobals (names names' : Interner) (m m' : Machine) : Prop where
  frame : ∀ f f', m.env.frames[FrameId.global]? = some f →
    m'.env.frames[FrameId.global]? = some f' → f.Alike names names' f'
  heap : m'.heap = m.heap
  subs : SubsAlike names names' m.subs m'.subs
  calls : m'.calls = m.calls
  maxCalls : m'.maxCalls = m.maxCalls

/-- **A machine and the same later**, when it has printed the given lines: the same frames are live, and
all but the global one are exactly as they were. -/
structure Spares (lines : List String) (m n : Machine) : Prop where
  printer : n.printer = m.printer.after lines
  live : n.env.live = m.env.live
  locals : ∀ id ∈ m.env.live, id ≠ FrameId.global → n.env.frames[id]? = m.env.frames[id]?

/-! ### Two points as a start -/

/-- What is known of a machine that was reached: it is alike to itself, on top of the machine in which
its source began to run. -/
theorem Reached.exists_alike (hm : Reached names m) :
    ∃ base d, Alike names names base base m m d := by
  obtain ⟨names₀, m₀, source, p, fuel, hsession, hp, rfl⟩ := hm
  exact ⟨m₀, _, (hsession.alike_run hp fuel).machine⟩

/-- **Two points that agree in what a subroutine can see** are alike as the start of two runs. -/
theorem SameGlobals.alike (hm : Reached names m) (hm' : Reached names' m')
    (hsame : SameGlobals names names' m m') : Alike names names' m m' m m' 0 := by
  obtain ⟨base, d, h⟩ := hm.exists_alike
  obtain ⟨base', d', h'⟩ := hm'.exists_alike
  -- Both global frames are there, and have no parent.
  obtain ⟨f, _, hf, -, -, hparent⟩ := h.env.frame 0 0 (.inl ⟨rfl, rfl⟩)
  obtain ⟨f', _, hf', -, -, hparent'⟩ := h'.env.frame 0 0 (.inl ⟨rfl, rfl⟩)
  refine ⟨⟨.refl h.env.above.tidy, .refl h'.env.above.tidy, ?_⟩, hsame.heap, h.valid, h'.valid,
    hsame.subs, h.global, hsame.calls, hsame.maxCalls, [], rfl, rfl⟩
  -- No frame is opened yet, so the global frames are the only counterparts.
  rintro id id' (⟨rfl, rfl⟩ | ⟨i, hi, -⟩)
  · refine ⟨f, f', hf, hf', hsame.frame f f' hf hf', ?_⟩
    rw [hparent.eq_none.1, hparent'.eq_none.1]
    exact .global rfl rfl
  · exact absurd hi (Nat.not_lt_zero i)

/-- Where all frames are closed again that were opened since, only the global one may have changed. -/
theorem spares_of_above {lines : List String} (hm : m.env.Tidy) (hn : m.env.Above n.env 0)
    (hlines : n.printer = m.printer.after lines) : m.Spares lines n where
  printer := hlines
  live := by rw [hn.tidy.live, hm.live, hn.size, Nat.add_zero]
  locals id hid hne := hn.kept id (Nat.pos_of_ne_zero hne) ((hm.mem_live id).mp hid)

/-- **Where all frames are closed again** that were opened since, the machines agree again, and have
spared what a subroutine cannot see. -/
theorem Alike.sameGlobals (h : Alike names names' m m' n n' 0) (hm : m.env.Tidy)
    (hm' : m'.env.Tidy) :
    SameGlobals names names' n n' ∧ ∃ lines, m.Spares lines n ∧ m'.Spares lines n' := by
  obtain ⟨f, f', hf, hf', halike, -⟩ := h.env.frame 0 0 (.inl ⟨rfl, rfl⟩)
  obtain ⟨lines, hlines, hlines'⟩ := h.printed
  refine ⟨⟨fun g g' hg hg' => ?_, h.heap, h.subs, h.calls, h.maxCalls⟩, lines, ?_, ?_⟩
  -- At the place of the global frame there is one frame, so these are the ones that are alike.
  · obtain rfl : f = g := Option.some.inj (hf.symm.trans hg)
    obtain rfl : f' = g' := Option.some.inj (hf'.symm.trans hg')
    exact halike
  · exact spares_of_above hm h.env.above hlines
  · exact spares_of_above hm' h.env.above' hlines'

/-- **A call sees the global frame only.** At two points that agree in the global frame, the heap, the
subroutines and the calls, it takes the same steps: it is over at both with the same result, after the
same lines, and the points agree again, or it is over at neither, and the lines so far are the same. The
frames that are live besides the global one are left exactly as they were. -/
theorem call_sees_globals_only (hm : Reached names m) (hm' : Reached names' m')
    (hsame : SameGlobals names names' m m') {f f' : Name} (hf : names.SameText names' f f')
    (fuel : Nat) :
    (∃ result n n' lines, m.execute names fuel (.call f) = .finished result n ∧
        m'.execute names' fuel (.call f') = .finished result n' ∧
        SameGlobals names names' n n' ∧ m.Spares lines n ∧ m'.Spares lines n') ∨
      ∃ c c' lines, m.execute names fuel (.call f) = .running c ∧
        m'.execute names' fuel (.call f') = .running c' ∧
        c.machine.printer = m.printer.after lines ∧
        c'.machine.printer = m'.printer.after lines := by
  have hstart := hsame.alike hm hm'
  cases fuel with
  -- No step is taken, so nothing is printed.
  | zero => exact .inr ⟨_, _, [], rfl, rfl, rfl, rfl⟩
  | succ fuel =>
    -- The call itself looks at no frame but the global one; its body stands in a frame of its own.
    have hcall := alike_call (.ended .nil) hstart hf
    have hrun := hcall.run fuel
    have hexecute : m.execute names (fuel + 1) (.call f) =
        (Machine.call names f [.run []] m).run names fuel := rfl
    have hexecute' : m'.execute names' (fuel + 1) (.call f') =
        (Machine.call names' f' [.run []] m').run names' fuel := rfl
    rw [hexecute, hexecute']
    revert hrun
    generalize (Machine.call names f [.run []] m).run names fuel = progress
    generalize (Machine.call names' f' [.run []] m').run names' fuel = progress'
    intro hrun
    cases hrun with
    | running hc =>
      obtain ⟨lines, hlines, hlines'⟩ := hc.machine.printed
      exact .inr ⟨_, _, lines, rfl, rfl, hlines, hlines'⟩
    | finished _ hend =>
      obtain ⟨hagree, lines, hspares, hspares'⟩ :=
        hend.sameGlobals hstart.env.above.tidy hstart.env.above'.tidy
      exact .inl ⟨_, _, _, lines, rfl, rfl, hagree, hspares, hspares'⟩

/-- **Points that have the same globals as they stand.** -/
theorem SameGlobals.of_eq (hm : Reached names m)
    -- The machine is alike to itself, and the other has the same global frame.
    (hframe : m'.env.frames[FrameId.global]? = m.env.frames[FrameId.global]?)
    (hheap : m'.heap = m.heap) (hsubs : m'.subs = m.subs) (hcalls : m'.calls = m.calls)
    (hmax : m'.maxCalls = m.maxCalls) : SameGlobals names names m m' := by
  obtain ⟨base, d, h⟩ := hm.exists_alike
  refine ⟨fun f f' hf hf' => ?_, hheap, hsubs ▸ h.subs, hcalls, hmax⟩
  obtain ⟨g, g', hg, hg', halike, -⟩ := h.env.frame 0 0 (.inl ⟨rfl, rfl⟩)
  obtain rfl : g = f := Option.some.inj (hg.symm.trans hf)
  obtain rfl : g' = f' := Option.some.inj (hg'.symm.trans (hframe.symm.trans hf'))
  exact halike

/-- A subroutine is called in the global frame, and in a loop with a variable of its own. -/
theorem call_sees_globals_only_in_loop :
    let x : Name := ⟨20⟩
    let names := (Interner.initial.intern "x").2
    let body : Block := [.print (.int 1)]
    let p : Program := [.sub x body, .whileDo (.bool true) [.declare x (.int 2), .breakLoop]]
    let names' := (parse (p.display names.text) names).2
    ∃ m m' : Machine, m.env.live = #[0] ∧ m'.env.live = #[0, 1] ∧ m'.env.isLocal x = .ok true ∧
      SameGlobals names' names' m m' ∧
      ∃ n n' lines, m.execute names' 9 (.call x) = .finished (.ok .ok) n ∧
        m'.execute names' 9 (.call x) = .finished (.ok .ok) n' ∧ SameGlobals names' names' n n' ∧
        m.Spares lines n ∧ m'.Spares lines n' := by
  intro x names body p names'
  have hx : names.text? x = some "x" := by decide +kernel
  have hwell : p.WellFormed names := by
    have hidentifier : names.IsIdentifier x := ⟨"x", hx, by decide +kernel⟩
    intro s hs
    simp only [p, List.mem_cons, List.not_mem_nil, or_false] at hs
    rcases hs with rfl | rfl
    · exact ⟨hidentifier, trivial, trivial⟩
    · exact ⟨trivial, ⟨hidentifier, trivial⟩, trivial, trivial⟩
  have hparse : parse (p.display names.text) names = (.ok p, names') :=
    parse_eq_of_ok (parse_display hwell)
  have hx' : names'.text? x = some "x" := Interner.text?_of_extends (extends_parse _ _) hx
  have hname : names'.resolve x = .ok "x" := by rw [Interner.resolve, hx']; rfl
  -- The name of the subroutine is all that a run needs of the table.
  clear_value names' names
  have hm (fuel : Nat) :
      Reached names' (((initial .silent 8).load p).run names' fuel).machine :=
    ⟨names, _, _, p, fuel, .start names .silent 8 [], hparse, rfl⟩
  have hdefined (fuel : Nat) : ((initial .silent 8).load p).run names' (fuel + 1) =
      Config.run names' fuel ⟨.ok .ok, [.run p.tail], ⟨.empty, .initial,
        [(x, ⟨body, FrameId.global⟩)], .silent, 0, 8, [.defineSubroutine "x"]⟩⟩ := by
    have hstep : Machine.define names' x body [.run p.tail] (initial .silent 8) =
        ⟨.ok .ok, [.run p.tail], ⟨.empty, .initial, [(x, ⟨body, FrameId.global⟩)], .silent, 0, 8,
          [.defineSubroutine "x"]⟩⟩ := by
      rw [Machine.define, hname]
      rfl
    rw [← hstep]
    rfl
  have hglobals : SameGlobals names' names' (((initial .silent 8).load p).run names' 1).machine
      (((initial .silent 8).load p).run names' 4).machine := by
    refine .of_eq (hm 1) ?_ ?_ ?_ ?_ ?_
    all_goals
      rw [hdefined, hdefined]
      rfl
  refine ⟨_, _, ?_, ?_, ?_, hglobals, ?_⟩
  · rw [hdefined]
    rfl
  · rw [hdefined]
    rfl
  · rw [hdefined]
    rfl
  · obtain ⟨n, hn⟩ : ∃ n, (((initial .silent 8).load p).run names' 1).machine.execute names' 9
        (.call x) = .finished (.ok .ok) n := by
      have hcall (m : Machine) : m.execute names' 9 (.call x) =
          (Machine.call names' x [.run []] m).run names' 8 := rfl
      have hbegin : (Environment.initial : Environment).beginScopeIn FrameId.global =
          (.ok (), Environment.initial.opened FrameId.global) := by
        simp [Environment.beginScopeIn_eq, Environment.initial]
      rw [hcall, Machine.call, hname, hdefined]
      simp only [Config.run, Progress.machine, Machine.note, List.lookup_cons, beq_self_eq_true,
        Machine.invoke, Machine.enterScopeIn, hbegin]
      exact ⟨_, rfl⟩
    obtain ⟨result, n₁, n', lines, hn₁, hn', hagree, hspares, hspares'⟩ | ⟨c, c', lines, hc, -⟩ :=
      call_sees_globals_only (hm 1) (hm 4) hglobals ⟨"x", hx', hx'⟩ 9
    · rw [hn] at hn₁
      cases hn₁
      exact ⟨n, n', lines, hn, hn', hagree, hspares, hspares'⟩
    · rw [hn] at hc
      cases hc

end Machine

end Silly
