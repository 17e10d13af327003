import Silly.Proofs.Environment.Alike
import Silly.Proofs.Heap.Fault
import Silly.Proofs.Heap.Run
import Silly.Proofs.Machine.Balance

/-!
# Runs that differ in what a program cannot see

A program sees no numbers of names and no places of frames, and once it stands in a frame of its own
it sees nothing of the frames that were there before but the global one. Two runs that differ in
these only take the same steps: they come to the same signals, print the same lines, and have the same
heap and alike environments throughout (`Config.Alike.run`).

The two runs start on top of the frames of two machines, `base` and `base'`. One step lemma covers
every statement (`Task.alike_step`). What it rests on is the invariant `Config.Alike`. It says of the
tasks that they are alike, and that no statement is left to run in a frame of `base` unless that is
the global one and the only one (`ControlAlike`). It says of the subroutines that all of them belong
to the global frame, which is where a call puts their bodies. As `sub` is carried out only where no
scope was opened, this stays so.

The invariant also says that the last signal was no fault. So a run that is alike to itself is one that
never looks up what does not exist.
-/

namespace Silly

variable {names names' : Interner}

/-! ### Printed lines -/

/-- The printer after some lines. -/
def Printer.after (p : Printer) (lines : List String) : Printer := lines.foldl Printer.println p

theorem Printer.after_append (p : Printer) (lines more : List String) :
    p.after (lines ++ more) = (p.after lines).after more := List.foldl_append

theorem Printer.after_concat (p : Printer) (lines : List String) (s : String) :
    p.after (lines ++ [s]) = (p.after lines).println s := p.after_append lines [s]

/-- **More lines were printed**, or none. -/
def Printer.Precedes (p p' : Printer) : Prop := ∃ lines, p' = p.after lines

theorem Printer.Precedes.refl (p : Printer) : p.Precedes p := ⟨[], rfl⟩

theorem Printer.Precedes.trans {p p' p'' : Printer} (h : p.Precedes p') (h' : p'.Precedes p'') :
    p.Precedes p'' := by
  obtain ⟨lines, rfl⟩ := h
  obtain ⟨more, rfl⟩ := h'
  exact ⟨lines ++ more, (p.after_append lines more).symm⟩

/-! ### Expressions -/

/-- **A name with the same text** in two tables is resolved to that text in both. -/
theorem Interner.SameText.resolve {x x' : Name} (h : names.SameText names' x x') :
    ∃ s, names.resolve x = .ok s ∧ names'.resolve x' = .ok s := by
  obtain ⟨s, hx, hx'⟩ := h
  refine ⟨s, ?_, ?_⟩
  · rw [Interner.resolve, hx]
    rfl
  · rw [Interner.resolve, hx']
    rfl

/-- **Alike complaints** are the same error, as their variables have the same text. -/
theorem ScopeError.Alike.stop_eq {e e' : ScopeError} (h : e.Alike names names' e') :
    ∃ err, e.stop names = .error err ∧ e'.stop names' = .error err := by
  cases h with
  | undeclared hx | alreadyDeclared hx | unassigned hx =>
    obtain ⟨s, hs, hs'⟩ := hx.resolve
    simp only [ScopeError.stop, ScopeError.name, hs, hs']
    exact ⟨_, rfl, rfl⟩

/-- **Operations on scopes that come to the same** are the same for the run. -/
theorem ScopeOutcome.Alike.outcome_eq {β : Type} {r r' : ScopeOutcome β}
    (h : ScopeOutcome.Alike names names' r r') :
    r'.outcome names' = r.outcome names ∧ Faultless (r.outcome names) := by
  cases h with
  | ok b => exact ⟨rfl, faultless_ok b⟩
  | error he =>
    -- Both complain about a variable of the same text, and so with the same message.
    obtain ⟨err, herr, herr'⟩ := he.stop_eq
    simp only [ScopeOutcome.outcome, herr, herr']
    exact ⟨trivial, faultless_error err⟩

section Eval

variable {R : Name → Name → Prop} {σ H : Type} [StringStore σ H]
  {env env' : Environment (Value σ)}

mutual
/-- **Alike expressions come to the same** where related names have the same texts and variables the
same values. -/
theorem ExprAlike.eval_eq (hnames : ∀ x x', R x x' → names'.resolve x' = names.resolve x)
    (hlookup : ∀ x x', R x x' →
      (env'.lookup x').outcome names' = (env.lookup x).outcome names) {e e' : Expr} :
    ExprAlike R e e' → ∀ h : H, e'.eval names' env' h = e.eval names env h
  | .int _, _ | .bool _, _ => rfl
  | .str hx, h => by rw [Expr.eval, Expr.eval, hnames _ _ hx]
  | .var hx, h => by rw [Expr.eval, Expr.eval, hlookup _ _ hx]
  | .list hes, h => by rw [Expr.eval, Expr.eval, hes.eval_eq hnames hlookup h]
  | .unary _ he, h => by rw [Expr.eval, Expr.eval, he.eval_eq hnames hlookup h]
  | .binary _ hl hr, h => by
    simp only [Expr.eval, hl.eval_eq hnames hlookup, hr.eval_eq hnames hlookup]

/-- So do the items of alike lists. -/
theorem ItemsAlike.eval_eq (hnames : ∀ x x', R x x' → names'.resolve x' = names.resolve x)
    (hlookup : ∀ x x', R x x' →
      (env'.lookup x').outcome names' = (env.lookup x).outcome names) {es es' : List Expr} :
    ItemsAlike R es es' → ∀ h : H, evalItems names' env' es' h = evalItems names env es h
  | .nil, _ => rfl
  | .cons he hes, h => by
    simp only [evalItems, he.eval_eq hnames hlookup, hes.eval_eq hnames hlookup]
end

end Eval

/-! ### Alike machines -/

/-- **What two tables of subroutines hold under one name**: nothing, or bodies that are alike and
belong to the same frame. -/
inductive SubAlike (names names' : Interner) : Option Subroutine → Option Subroutine → Prop
  | none : SubAlike names names' none none
  | some {sub sub' : Subroutine} : BlockAlike (names.SameText names') sub.body sub'.body →
      sub'.scope = sub.scope → SubAlike names names' (some sub) (some sub')

/-- **Two tables with the same subroutines**, by the texts of their names. -/
structure SubsAlike (names names' : Interner) (subs subs' : List (Name × Subroutine)) : Prop where
  lookup : ∀ x x', names.SameText names' x x' →
    SubAlike names names' (subs.lookup x) (subs'.lookup x')
  known : ∀ x, (subs.lookup x).isSome = true → ∃ x', names.SameText names' x x'
  known' : ∀ x', (subs'.lookup x').isSome = true → ∃ x, names.SameText names' x x'

theorem SubAlike.isSome_eq {sub sub' : Option Subroutine} (h : SubAlike names names' sub sub') :
    sub'.isSome = sub.isSome := by
  cases h <;> rfl

/-- **One more subroutine.** -/
theorem SubsAlike.cons {subs subs' : List (Name × Subroutine)}
    (h : SubsAlike names names' subs subs') {x x' : Name} (hx : names.SameText names' x x')
    {sub sub' : Subroutine} (hsub : SubAlike names names' (some sub) (some sub')) :
    SubsAlike names names' ((x, sub) :: subs) ((x', sub') :: subs') where
  lookup y y' hy := by
    rw [List.lookup_cons, List.lookup_cons]
    -- Names that are equal in the one run are equal in the other.
    by_cases hyx : y = x
    · have hyx' : y' = x' := (hy.eq_iff hx).mp hyx
      simp only [hyx, hyx', beq_self_eq_true]
      exact hsub
    · have hyx' : ¬ y' = x' := mt (hy.eq_iff hx).mpr hyx
      simp only [beq_false_of_ne hyx, beq_false_of_ne hyx']
      exact h.lookup y y' hy
  -- A name that is known is the new one or was known before.
  known y hy := by
    by_cases hyx : y = x
    · exact ⟨x', hyx ▸ hx⟩
    · rw [List.lookup_cons, beq_false_of_ne hyx] at hy
      exact h.known y hy
  known' y' hy' := by
    by_cases hyx' : y' = x'
    · exact ⟨x, hyx' ▸ hx⟩
    · rw [List.lookup_cons, beq_false_of_ne hyx'] at hy'
      exact h.known' y' hy'

/-- A table is alike to itself still when names are added. -/
theorem SubsAlike.extend {subs : List (Name × Subroutine)} (he : names.Extends names')
    (h : SubsAlike names names subs subs) : SubsAlike names' names' subs subs where
  lookup x x' hx := by
    obtain rfl : x = x' := hx.eq
    -- What the table holds is alike to itself by the old names, and has to be so by the new ones.
    cases hlookup : subs.lookup x with
    | none => exact .none
    | some sub =>
      -- The name of a subroutine was in the table before it grew, and so were those in the body.
      obtain ⟨y, hy⟩ := h.known x (by rw [hlookup]; rfl)
      have hsub := h.lookup x x (hy.eq ▸ hy)
      rw [hlookup] at hsub
      cases hsub with
      | some hbody hscope => exact .some (hbody.mono fun _ _ hx => hx.of_extends he he) hscope
  known x hx := by
    obtain ⟨x', hx'⟩ := h.known x hx
    exact ⟨x', hx'.of_extends he he⟩
  known' x hx := by
    obtain ⟨x', hx'⟩ := h.known' x hx
    exact ⟨x', hx'.of_extends he he⟩

/-- What is found after a definition is the new subroutine, or was there before. -/
theorem Machine.eq_or_lookup_of_addSub {m : Machine} {x y : Name} {sub sub' : Subroutine}
    (h : (m.addSub x sub).subs.lookup y = some sub') : sub' = sub ∨ m.subs.lookup y = some sub' := by
  have hlookup : ((x, sub) :: m.subs).lookup y = some sub' := h
  -- The new subroutine stands first, so it is what is found under its own name.
  rw [List.lookup_cons] at hlookup
  split at hlookup
  · exact .inl (Option.some.inj hlookup).symm
  · exact .inr hlookup

/-- **Two machines that were reached from `base` and `base'`** by opening `d` frames and printing the
same lines, with the same heap, alike environments and the same subroutines, which all belong to the
global frame. -/
structure Machine.Alike (names names' : Interner) (base base' m m' : Machine) (d : Nat) :
    Prop where
  env : Environment.Alike names names' base.env base'.env m.env m'.env d
  heap : m'.heap = m.heap
  valid : m.Valid
  valid' : m'.Valid
  subs : SubsAlike names names' m.subs m'.subs
  global : ∀ x sub, m.subs.lookup x = some sub → sub.scope = FrameId.global
  calls : m'.calls = m.calls
  maxCalls : m'.maxCalls = m.maxCalls
  printed : ∃ lines, m.printer = base.printer.after lines ∧ m'.printer = base'.printer.after lines

/-- Only the global frames were there at first. -/
def Alone (base base' : Machine) : Prop :=
  base.env.frames.size = 1 ∧ base'.env.frames.size = 1

namespace Machine.Alike

variable {base base' m m' : Machine} {d : Nat} {x x' : Name}

theorem note (h : Alike names names' base base' m m' d) (e e' : Event) :
    Alike names names' base base' (m.note e) (m'.note e') d := { h with }

/-- A line that is printed in both. -/
theorem print (h : Alike names names' base base' m m' d) (s : String) :
    Alike names names' base base' (m.print s) (m'.print s) d := by
  obtain ⟨lines, hlines, hlines'⟩ := h.printed
  refine { h with printed := ⟨lines ++ [s], ?_, ?_⟩ }
  · rw [Printer.after_concat, ← hlines]
    rfl
  · rw [Printer.after_concat, ← hlines']
    rfl

/-- **A definition** in both, which belongs to the global frame. -/
theorem addSub (h : Alike names names' base base' m m' d) (hx : names.SameText names' x x')
    {body body' : Block} (hbody : BlockAlike (names.SameText names') body body') :
    Alike names names' base base' (m.addSub x ⟨body, FrameId.global⟩)
      (m'.addSub x' ⟨body', FrameId.global⟩) d := by
  refine { h with subs := h.subs.cons hx (.some hbody rfl), global := fun y sub hsub => ?_ }
  obtain rfl | hold := Machine.eq_or_lookup_of_addSub hsub
  · rfl
  · exact h.global y sub hold

/-- **A new frame** inside the innermost one. -/
theorem enterScope (h : Alike names names' base base' m m' d) (hd : 0 < d ∨ Alone base base') :
    Alike names names' base base' m.enterScope m'.enterScope (d + 1) :=
  { h with
    env := h.env.opened (h.env.current hd)
    valid := h.valid.enterScope
    valid' := h.valid'.enterScope }

/-- **The innermost frame ends** in both. -/
theorem leaveScope (h : Alike names names' base base' m m' (d + 1)) :
    Alike names names' base base' m.leaveScope m'.leaveScope d :=
  { h with
    env := h.env.endScope
    valid := h.valid.leaveScope
    valid' := h.valid'.leaveScope }

theorem beginCall (h : Alike names names' base base' m m' d) :
    Alike names names' base base' m.beginCall m'.beginCall d :=
  { h with calls := congrArg (· + 1) h.calls }

theorem leaveCall (h : Alike names names' base base' m m' d) :
    Alike names names' base base' m.leaveCall m'.leaveCall d :=
  { h with calls := congrArg (· - 1) h.calls }

/-- **A new frame** inside the global one, whatever frame is innermost. -/
theorem enterScopeIn (h : Alike names names' base base' m m' d) :
    ∃ m₁ m₁', m.enterScopeIn FrameId.global = (.ok (), m₁) ∧
      m'.enterScopeIn FrameId.global = (.ok (), m₁') ∧
      Alike names names' base base' m₁ m₁' (d + 1) := by
  have hvalid := h.valid.enterScopeIn FrameId.global
  have hvalid' := h.valid'.enterScopeIn FrameId.global
  -- The global frame is live in both, so neither arena refuses it as a parent.
  have hopened := h.env.opened (Counterparts.global _ _ d)
  simp only [Machine.enterScopeIn, h.env.above.tidy.beginScopeIn_global,
    h.env.above'.tidy.beginScopeIn_global] at hvalid hvalid' ⊢
  exact ⟨_, _, rfl, rfl, { h with env := hopened, valid := hvalid, valid' := hvalid' }⟩

/-- **A declaration** of names with the same text. -/
theorem declare (h : Alike names names' base base' m m' d) (hd : 0 < d ∨ Alone base base')
    (hx : names.SameText names' x x') :
    (m'.declare names' x').1 = (m.declare names x).1 ∧ Faultless (m.declare names x).1 ∧
      Alike names names' base base' (m.declare names x).2 (m'.declare names' x').2 d := by
  obtain ⟨hr, henv⟩ := h.env.declare (h.env.current hd) hx
  obtain ⟨heq, hfaultless⟩ := hr.outcome_eq
  have hvalid := h.valid.declare names x
  have hvalid' := h.valid'.declare names' x'
  exact ⟨heq, hfaultless, { h with env := henv, valid := hvalid, valid' := hvalid' }⟩

/-- **A value is stored** under names with the same text. -/
theorem store (h : Alike names names' base base' m m' d) (hd : 0 < d ∨ Alone base base')
    (hx : names.SameText names' x x') {v : Value} (hv : v.Valid m.heap) :
    (m'.store names' x' v).1 = (m.store names x v).1 ∧ Faultless (m.store names x v).1 ∧
      Alike names names' base base' (m.store names x v).2 (m'.store names' x' v).2 d := by
  obtain ⟨hr, henv⟩ := h.env.store (h.env.current hd) hx v
  obtain ⟨heq, hfaultless⟩ := hr.outcome_eq
  have hvalid := h.valid.store names x hv
  have hvalid' := h.valid'.store names' x' (h.heap ▸ hv)
  exact ⟨heq, hfaultless, { h with env := henv, valid := hvalid, valid' := hvalid' }⟩

/-- **The two ways in which an evaluation ends**: both come to the same error of the program or to the
same value, with the same heap. -/
theorem eval_cases (h : Alike names names' base base' m m' d) (hd : 0 < d ∨ Alone base base')
    {e e' : Expr} (he : ExprAlike (names.SameText names') e e') :
    (∃ err m₁ m₁', m.eval names e = (.error (.error err), m₁) ∧
        m'.eval names' e' = (.error (.error err), m₁') ∧
        Alike names names' base base' m₁ m₁' d) ∨
      ∃ v m₁ m₁', m.eval names e = (.ok v, m₁) ∧ m'.eval names' e' = (.ok v, m₁') ∧
        v.Valid m₁.heap ∧ Alike names names' base base' m₁ m₁' d := by
  -- Variables with the same text have the same value, and names the same text.
  have hlookup (x x' : Name) (hx : names.SameText names' x x') :=
    (h.env.lookup (h.env.current hd) hx).outcome_eq
  have hresolve (x x' : Name) (hx : names.SameText names' x x') :
      names'.resolve x' = names.resolve x := by
    obtain ⟨s, hs, hs'⟩ := hx.resolve
    rw [hs, hs']
  -- Both evaluate to the same, since they read the same.
  have heval := he.eval_eq hresolve (fun x x' hx => (hlookup x x' hx).1) m.heap
  -- Without the heap there is no fault, so there is none with it.
  have htracks := e.tracks_eval names h.valid
  have hfaultless : Faultless (e.eval names m.env m.heap).1 := by
    rw [← faultless_map_iff (Value.plain (e.eval names m.env m.heap).2), ← htracks.plain]
    refine he.faultless (fun x x' hx => ?_) fun x x' hx => ?_
    · obtain ⟨s, hs, -⟩ := hx.resolve
      rw [hs]
      exact faultless_ok s
    · have hplain : ((m.env.plain m.heap).lookup x).outcome names =
          ((m.env.lookup x).outcome names).map (Value.plain m.heap) :=
        (h.valid.tracks_lookup names x).plain
      rw [hplain]
      exact (faultless_map_iff _).mpr (hlookup x x' hx).2
  -- The heap has grown in both by the same strings.
  have hgrown : Alike names names' base base' { m with heap := (e.eval names m.env m.heap).2 }
      { m' with heap := (e.eval names m.env m.heap).2 } d :=
    { h with
      heap := rfl
      valid := h.valid.of_extends htracks.extends_heap
      valid' := h.valid'.of_extends (h.heap ▸ htracks.extends_heap) }
  have hm : m.eval names e = ((e.eval names m.env m.heap).1,
      { m with heap := (e.eval names m.env m.heap).2 }) := rfl
  have hm' : m'.eval names' e' = ((e.eval names m.env m.heap).1,
      { m' with heap := (e.eval names m.env m.heap).2 }) := by
    rw [← heval, ← h.heap]
    rfl
  -- The evaluation has come to no fault, so it is an error or a value.
  obtain ⟨err, herr⟩ | ⟨v, hv⟩ := hfaultless.cases
  · rw [herr] at hm hm'
    exact .inl ⟨err, _, _, hm, hm', hgrown⟩
  · have hvalid := htracks.valid v hv
    rw [hv] at hm hm'
    exact .inr ⟨v, _, _, hm, hm', hvalid, hgrown⟩

/-- **The two ways in which a condition ends.** -/
theorem test_cases (h : Alike names names' base base' m m' d) (hd : 0 < d ∨ Alone base base')
    (operation : Operation) {e e' : Expr} (he : ExprAlike (names.SameText names') e e') :
    (∃ err m₁ m₁', m.test names operation e = (.error (.error err), m₁) ∧
        m'.test names' operation e' = (.error (.error err), m₁') ∧
        Alike names names' base base' m₁ m₁' d) ∨
      ∃ b m₁ m₁', m.test names operation e = (.ok b, m₁) ∧
        m'.test names' operation e' = (.ok b, m₁') ∧ Alike names names' base base' m₁ m₁' d := by
  unfold Machine.test
  obtain ⟨err, m₁, m₁', hr, hr', hm⟩ | ⟨v, m₁, m₁', hr, hr', -, hm⟩ := h.eval_cases hd he
  · rw [hr, hr']
    exact .inl ⟨err, m₁, m₁', rfl, rfl, hm⟩
  · rw [hr, hr']
    -- A value that is no boolean is a mismatch in both.
    cases v with
    | bool b => exact .inr ⟨b, m₁, m₁', rfl, rfl, hm⟩
    | int | str | list => exact .inl ⟨_, m₁, m₁', rfl, rfl, hm⟩

end Machine.Alike

/-! ### Alike points -/

/-- **Alike tasks.** A statement is left to run only where a scope is still to be closed, or where the
global frames were `alone` at first, and a subroutine is left to be defined only where the global frame
is the innermost one. -/
inductive ControlAlike (names names' : Interner) (alone : Prop) : List Task → List Task → Prop
  | nil : ControlAlike names names' alone [] []
  /-- Nothing is left of a block. -/
  | ended {k k' : List Task} : ControlAlike names names' alone k k' →
      ControlAlike names names' alone (.run [] :: k) (.run [] :: k')
  | block {ss ss' : List Stmt} {k k' : List Task} : 0 < scopes k ∨ alone →
      BlockAlike (names.SameText names') ss ss' → ControlAlike names names' alone k k' →
      ControlAlike names names' alone (.run ss :: k) (.run ss' :: k')
  | program {p p' : Program} {k k' : List Task} : scopes k = 0 → alone →
      ProgramAlike (names.SameText names') p p' → ControlAlike names names' alone k k' →
      ControlAlike names names' alone (.run p :: k) (.run p' :: k')
  | leaveScope {k k' : List Task} : ControlAlike names names' alone k k' →
      ControlAlike names names' alone (.leaveScope :: k) (.leaveScope :: k')
  | leaveCall {k k' : List Task} : ControlAlike names names' alone k k' →
      ControlAlike names names' alone (.leaveCall :: k) (.leaveCall :: k')
  | whileDo {c c' : Expr} {body body' : Block} {k k' : List Task} : 0 < scopes k ∨ alone →
      ExprAlike (names.SameText names') c c' → BlockAlike (names.SameText names') body body' →
      ControlAlike names names' alone k k' →
      ControlAlike names names' alone (.whileDo c body :: k) (.whileDo c' body' :: k')
  | repeatTimes (left : Nat) {body body' : Block} {k k' : List Task} : 0 < scopes k ∨ alone →
      BlockAlike (names.SameText names') body body' → ControlAlike names names' alone k k' →
      ControlAlike names names' alone (.repeatTimes left body :: k) (.repeatTimes left body' :: k')

theorem ControlAlike.exists_cons {alone : Prop} {task : Task} {k control' : List Task}
    (h : ControlAlike names names' alone (task :: k) control') :
    ∃ task' k', control' = task' :: k' := by
  cases h <;> exact ⟨_, _, rfl⟩

/-- **Two points that were reached from `base` and `base'`**: the same signal, which is no fault, alike
tasks, and machines that are alike with as many frames opened as the tasks close. -/
structure Config.Alike (names names' : Interner) (base base' : Machine) (c c' : Config) :
    Prop where
  signal : c'.signal = c.signal
  faultless : Faultless c.signal
  control : ControlAlike names names' (Alone base base') c.control c'.control
  machine : Machine.Alike names names' base base' c.machine c'.machine (scopes c.control)

section Step

variable {base base' m m' : Machine} {k k' : List Task}

theorem Config.Alike.of_signal {signal : Outcome Status} (hsignal : Faultless signal)
    (hk : ControlAlike names names' (Alone base base') k k')
    (hm : Machine.Alike names names' base base' m m' (scopes k)) :
    Config.Alike names names' base base' ⟨signal, k, m⟩ ⟨signal, k', m'⟩ :=
  ⟨rfl, hsignal, hk, hm⟩

/-! ### Statements -/

section Statements

variable (hk : ControlAlike names names' (Alone base base') k k')
  (hm : Machine.Alike names names' base base' m m' (scopes k))
  (hd : 0 < scopes k ∨ Alone base base')

include hk hm hd

/-- A block runs in a frame of its own. -/
theorem alike_enterBlock {body body' : Block}
    (hbody : BlockAlike (names.SameText names') body body') :
    Config.Alike names names' base base' (enterBlock body k m) (enterBlock body' k' m') where
  signal := rfl
  faultless := faultless_ok _
  control := .block (.inl (Nat.succ_pos _)) hbody (.leaveScope hk)
  machine := hm.enterScope hd

/-- **Evaluating and storing.** -/
theorem alike_evalStore {x x' : Name} (hx : names.SameText names' x x') {e e' : Expr}
    (he : ExprAlike (names.SameText names') e e') :
    Config.Alike names names' base base' (Machine.evalStore names x e k m)
      (Machine.evalStore names' x' e' k' m') := by
  obtain ⟨err, m₁, m₁', hr, hr', hm₁⟩ | ⟨v, m₁, m₁', hr, hr', hv, hm₁⟩ := hm.eval_cases hd he
  · simp only [Machine.evalStore, hr, hr']
    exact .of_signal (faultless_error err) hk hm₁
  · -- Evaluating opens no scope, so the variable is looked for where it was before.
    have hstore := hm₁.store hd hx hv
    simp only [Machine.evalStore, hr, hr']
    revert hstore
    obtain ⟨r, m₂⟩ := m₁.store names x v
    obtain ⟨r', m₂'⟩ := m₁'.store names' x' v
    rintro ⟨rfl, hfaultless, hm₂⟩
    obtain ⟨err, rfl⟩ | ⟨⟨⟩, rfl⟩ := hfaultless.cases
    · exact .of_signal hfaultless.error_of hk hm₂
    · exact .of_signal (faultless_ok _) hk hm₂

/-- **An assignment.** -/
theorem alike_assign {x x' : Name} (hx : names.SameText names' x x') {e e' : Expr}
    (he : ExprAlike (names.SameText names') e e') :
    Config.Alike names names' base base' (Machine.assign names x e k m)
      (Machine.assign names' x' e' k' m') := by
  obtain ⟨declared, hdeclared, hdeclared'⟩ := hm.env.isDeclared (hm.env.current hd) hx
  unfold Machine.assign
  rw [hdeclared, hdeclared']
  cases declared with
  -- The variable is declared in both or in neither.
  | true => exact alike_evalStore hk hm hd hx he
  | false =>
    obtain ⟨err, herr, herr'⟩ := (ScopeError.Alike.undeclared hx).stop_eq
    dsimp only
    rw [herr, herr']
    exact .of_signal (faultless_error err) hk hm

/-- **A declaration** with its value. -/
theorem alike_declareStore {x x' : Name} (hx : names.SameText names' x x') {e e' : Expr}
    (he : ExprAlike (names.SameText names') e e') :
    Config.Alike names names' base base' (Machine.declareStore names x e k m)
      (Machine.declareStore names' x' e' k' m') := by
  have hdeclare := hm.declare hd hx
  unfold Machine.declareStore
  revert hdeclare
  obtain ⟨r, m₁⟩ := m.declare names x
  obtain ⟨r', m₁'⟩ := m'.declare names' x'
  rintro ⟨rfl, hfaultless, hm₁⟩
  obtain ⟨err, rfl⟩ | ⟨⟨⟩, rfl⟩ := hfaultless.cases
  · exact .of_signal hfaultless.error_of hk hm₁
  · exact alike_evalStore hk hm₁ hd hx he

/-- **A `print`**, of the same value in the same heap. -/
theorem alike_printValue {e e' : Expr} (he : ExprAlike (names.SameText names') e e') :
    Config.Alike names names' base base' (Machine.printValue names e k m)
      (Machine.printValue names' e' k' m') := by
  obtain ⟨err, m₁, m₁', hr, hr', hm₁⟩ | ⟨v, m₁, m₁', hr, hr', hv, hm₁⟩ := hm.eval_cases hd he
  · simp only [Machine.printValue, hr, hr']
    exact .of_signal (faultless_error err) hk hm₁
  · -- The heaps are the same, so the line is.
    have hfaultless := hv.faultless_printed
    simp only [Machine.printValue, hr, hr', hm₁.heap]
    obtain ⟨err, herr⟩ | ⟨line, hline⟩ := hfaultless.cases
    · rw [herr]
      exact .of_signal (faultless_error err) hk hm₁
    · rw [hline]
      exact .of_signal (faultless_ok _) hk (hm₁.print line)

/-- **A `repeat`** with the same count in both. -/
theorem alike_beginRepeat {n n' : Expr} (hn : ExprAlike (names.SameText names') n n')
    {body body' : Block} (hbody : BlockAlike (names.SameText names') body body') :
    Config.Alike names names' base base' (Machine.beginRepeat names n body k m)
      (Machine.beginRepeat names' n' body' k' m') := by
  obtain ⟨err, m₁, m₁', hr, hr', hm₁⟩ | ⟨v, m₁, m₁', hr, hr', -, hm₁⟩ := hm.eval_cases hd hn
  · simp only [Machine.beginRepeat, hr, hr']
    exact .of_signal (faultless_error err) hk hm₁
  · simp only [Machine.beginRepeat, hr, hr']
    cases v with
    | int count =>
      exact .of_signal (faultless_ok _) (.repeatTimes _ hd hbody hk) (hm₁.note _ _)
    | str | bool | list => exact .of_signal (faultless_error _) hk hm₁

end Statements

/-- **A definition**, which is carried out only where the global frame is innermost. -/
theorem alike_define (hk : ControlAlike names names' (Alone base base') k k')
    (hm : Machine.Alike names names' base base' m m' (scopes k)) (hscopes : scopes k = 0)
    (halone : Alone base base') {x x' : Name} (hx : names.SameText names' x x')
    {body body' : Block} (hbody : BlockAlike (names.SameText names') body body') :
    Config.Alike names names' base base' (Machine.define names x body k m)
      (Machine.define names' x' body' k' m') := by
  -- The two names have the same text, so it is taken in both or in neither.
  obtain ⟨s, hs, hs'⟩ := hx.resolve
  have hdefined := (hm.subs.lookup x x' hx).isSome_eq
  -- No frame is open but the global one, so that is what the body belongs to.
  have hcurrent : m.env.current = FrameId.global := by
    rw [hm.env.above.current_eq, hscopes, halone.1]
    rfl
  have hcurrent' : m'.env.current = FrameId.global := by
    rw [hm.env.above'.current_eq, hscopes, halone.2]
    rfl
  simp only [Machine.define, hs, hs', hdefined, hcurrent, hcurrent']
  by_cases h : (m.subs.lookup x).isSome = true
  · rw [if_pos h, if_pos h]
    exact .of_signal (faultless_error _) hk hm
  · rw [if_neg h, if_neg h]
    exact .of_signal (faultless_ok _) hk ((hm.note _ _).addSub hx hbody)

/-- **A call.** Its body runs in a frame inside the global one, whatever frame is innermost. -/
theorem alike_call (hk : ControlAlike names names' (Alone base base') k k')
    (hm : Machine.Alike names names' base base' m m' (scopes k)) {x x' : Name}
    (hx : names.SameText names' x x') :
    Config.Alike names names' base base' (Machine.call names x k m)
      (Machine.call names' x' k' m') := by
  obtain ⟨s, hs, hs'⟩ := hx.resolve
  have hnoted := (hm.note (.callSubroutine s) (.callSubroutine s)).note .enterCall .enterCall
  have hsub := hm.subs.lookup x x' hx
  have hglobal := hm.global x
  simp only [Machine.call, hs, hs']
  revert hsub hglobal
  generalize m.subs.lookup x = sub
  generalize m'.subs.lookup x' = sub'
  intro hsub hglobal
  cases hsub with
  | none => exact .of_signal (faultless_error _) hk (hnoted.note _ _)
  | @some sub sub' hbody hscope =>
    have hscope' : sub.scope = FrameId.global := hglobal sub rfl
    -- As many calls are active in both, so the limit is reached in both or in neither.
    simp only [Machine.invoke, hnoted.calls, hnoted.maxCalls, hscope, hscope']
    split
    · exact .of_signal (faultless_error _) hk (hnoted.note _ _)
    · obtain ⟨m₁, m₁', hr, hr', hm₁⟩ := hnoted.enterScopeIn
      rw [hr, hr']
      refine .of_signal (faultless_ok _) ?_ hm₁.beginCall
      -- The scope of the call is still to be closed, which is all that its body asks for.
      exact .block (.inl (Nat.succ_pos _)) hbody (.leaveScope (.leaveCall hk))

/-- The first arm whose condition holds is the same. -/
theorem alike_startArms (hk : ControlAlike names names' (Alone base base') k k')
    (hd : 0 < scopes k ∨ Alone base base') : ∀ (arms arms' : Arms) {m m' : Machine},
    ArmsAlike (names.SameText names') arms arms' →
    Machine.Alike names names' base base' m m' (scopes k) →
    Config.Alike names names' base base' (arms.start names k m) (arms'.start names' k' m')
  | .done, _, _, _, harms, hm => by
    cases harms
    exact .of_signal (faultless_ok _) hk hm
  | .otherwise _, _, _, _, harms, hm => by
    cases harms with
    | otherwise hbody => exact alike_enterBlock hk hm hd hbody
  | .arm _ _ _, _, _, _, harms, hm => by
    cases harms with
    | arm hc hbody hrest =>
      simp only [Arms.start]
      obtain ⟨err, m₁, m₁', hr, hr', hm₁⟩ | ⟨b, m₁, m₁', hr, hr', hm₁⟩ :=
        hm.test_cases hd .ifCondition hc
      · rw [hr, hr']
        exact .of_signal (faultless_error err) hk hm₁
      · rw [hr, hr']
        -- The machines have moved on, so what is said of the further arms is said of all machines.
        cases b with
        | true => exact alike_enterBlock hk hm₁ hd hbody
        | false => exact alike_startArms hk hd _ _ hrest hm₁

/-- **A statement within a block** does the same in both. -/
theorem StmtAlike.alike_start (hk : ControlAlike names names' (Alone base base') k k')
    (hm : Machine.Alike names names' base base' m m' (scopes k))
    (hd : 0 < scopes k ∨ Alone base base') {s s' : Stmt}
    (hs : StmtAlike (names.SameText names') s s') :
    Config.Alike names names' base base' (s.start names k m) (s'.start names' k' m') := by
  cases hs with
  | assign hx he => exact alike_assign hk hm hd hx he
  | declare hx he => exact alike_declareStore hk hm hd hx he
  | print he => exact alike_printValue hk hm hd he
  | ifElse harms => exact alike_startArms hk hd _ _ harms hm
  | whileDo hc hbody => exact .of_signal (faultless_ok _) (.whileDo hd hc hbody hk) hm
  | repeatTimes hn hbody => exact alike_beginRepeat hk hm hd hn hbody
  | call hx => exact alike_call hk hm hx
  | exit => exact .of_signal (faultless_ok _) hk hm
  | breakLoop => exact .of_signal (faultless_ok _) hk hm

/-- **A statement at the top level.** -/
theorem TopAlike.alike_start (hk : ControlAlike names names' (Alone base base') k k')
    (hm : Machine.Alike names names' base base' m m' (scopes k)) (hscopes : scopes k = 0)
    (halone : Alone base base') {s s' : Stmt} (hs : TopAlike (names.SameText names') s s') :
    Config.Alike names names' base base' (s.start names k m) (s'.start names' k' m') := by
  cases hs with
  | stmt hs => exact hs.alike_start hk hm (.inr halone)
  | sub hx hbody => exact alike_define hk hm hscopes halone hx hbody

/-! ### Tasks -/

/-- Nothing is left of a block. -/
theorem alike_run_ended {signal : Outcome Status} (hsignal : Faultless signal)
    (hk : ControlAlike names names' (Alone base base') k k')
    (hm : Machine.Alike names names' base base' m m' (scopes k)) :
    Config.Alike names names' base base' ((Task.run []).step names signal k m)
      ((Task.run []).step names' signal k' m') := by
  obtain s | (_ | _ | _) := signal
  all_goals exact .of_signal hsignal hk hm

/-- The next statement of a block, if the last one finished with `ok`. -/
theorem alike_run_block {ss ss' : List Stmt} {signal : Outcome Status}
    (hsignal : Faultless signal) (hd : 0 < scopes k ∨ Alone base base')
    (hss : BlockAlike (names.SameText names') ss ss')
    (hk : ControlAlike names names' (Alone base base') k k')
    (hm : Machine.Alike names names' base base' m m' (scopes k)) :
    Config.Alike names names' base base' ((Task.run ss).step names signal k m)
      ((Task.run ss').step names' signal k' m') := by
  obtain s | (_ | _ | _) := signal
  case ok.ok =>
    cases hss with
    | nil => exact .of_signal hsignal hk hm
    | cons hs hrest =>
      have hrun := ControlAlike.block hd hrest hk
      exact hs.alike_start hrun hm hd
  all_goals exact .of_signal hsignal hk hm

/-- The next statement of a program. -/
theorem alike_run_program {p p' : Program} {signal : Outcome Status} (hsignal : Faultless signal)
    (hscopes : scopes k = 0) (halone : Alone base base')
    (hp : ProgramAlike (names.SameText names') p p')
    (hk : ControlAlike names names' (Alone base base') k k')
    (hm : Machine.Alike names names' base base' m m' (scopes k)) :
    Config.Alike names names' base base' ((Task.run p).step names signal k m)
      ((Task.run p').step names' signal k' m') := by
  obtain s | (_ | _ | _) := signal
  case ok.ok =>
    cases hp with
    | nil => exact .of_signal hsignal hk hm
    | cons hs hrest =>
      have hrun := ControlAlike.program hscopes halone hrest hk
      exact hs.alike_start hrun hm hscopes halone
  all_goals exact .of_signal hsignal hk hm

/-- **A `while`** in both runs. -/
theorem alike_step_whileDo {c c' : Expr} {body body' : Block} {signal : Outcome Status}
    (hsignal : Faultless signal) (hd : 0 < scopes k ∨ Alone base base')
    (hc : ExprAlike (names.SameText names') c c')
    (hbody : BlockAlike (names.SameText names') body body')
    (hk : ControlAlike names names' (Alone base base') k k')
    (hm : Machine.Alike names names' base base' m m' (scopes k)) :
    Config.Alike names names' base base' ((Task.whileDo c body).step names signal k m)
      ((Task.whileDo c' body').step names' signal k' m') := by
  obtain s | (_ | _ | _) := signal
  case ok.ok =>
    simp only [Task.step]
    obtain ⟨err, m₁, m₁', hr, hr', hm₁⟩ | ⟨b, m₁, m₁', hr, hr', hm₁⟩ :=
      hm.test_cases hd .whileCondition hc
    · rw [hr, hr']
      exact .of_signal (faultless_error err) hk hm₁
    · rw [hr, hr']
      -- The condition comes to the same boolean, and both enter the body or both are over.
      cases b with
      | true => exact alike_enterBlock (.whileDo hd hc hbody hk) hm₁ hd hbody
      | false => exact .of_signal (faultless_ok _) hk hm₁
  case ok.break => exact .of_signal (faultless_ok _) hk hm
  all_goals exact .of_signal hsignal hk hm

/-- **A `repeat`** with the same times left in both. -/
theorem alike_step_repeatTimes (left : Nat) {body body' : Block} {signal : Outcome Status}
    (hsignal : Faultless signal) (hd : 0 < scopes k ∨ Alone base base')
    (hbody : BlockAlike (names.SameText names') body body')
    (hk : ControlAlike names names' (Alone base base') k k')
    (hm : Machine.Alike names names' base base' m m' (scopes k)) :
    Config.Alike names names' base base' ((Task.repeatTimes left body).step names signal k m)
      ((Task.repeatTimes left body').step names' signal k' m') := by
  obtain s | (_ | _ | _) := signal
  case ok.ok =>
    cases left with
    | zero => exact .of_signal (faultless_ok _) hk hm
    | succ left => exact alike_enterBlock (.repeatTimes left hd hbody hk) hm hd hbody
  case ok.break => exact .of_signal (faultless_ok _) hk hm
  all_goals exact .of_signal hsignal hk hm

/-- **One task** takes alike points to alike points. -/
theorem Task.alike_step {task task' : Task} {signal signal' : Outcome Status}
    (h : Config.Alike names names' base base' ⟨signal, task :: k, m⟩ ⟨signal', task' :: k', m'⟩) :
    Config.Alike names names' base base' (task.step names signal k m)
      (task'.step names' signal' k' m') := by
  obtain ⟨hsame, hsignal, hcontrol, hm⟩ := h
  obtain rfl : signal' = signal := hsame
  -- What is left to do says which kind of task it is, and what it may do here.
  cases hcontrol with
  | ended hk => exact alike_run_ended hsignal hk hm
  | block hd hss hk => exact alike_run_block hsignal hd hss hk hm
  | program hscopes halone hp hk => exact alike_run_program hsignal hscopes halone hp hk hm
  | leaveScope hk => exact .of_signal hsignal hk (Machine.Alike.leaveScope hm)
  | leaveCall hk => exact .of_signal hsignal hk (Machine.Alike.leaveCall hm)
  | whileDo hd hc hbody hk => exact alike_step_whileDo hsignal hd hc hbody hk hm
  | repeatTimes left hd hbody hk => exact alike_step_repeatTimes left hsignal hd hbody hk hm

end Step

/-! ### Runs -/

/-- **Two runs that have come equally far**: both are over with the same result, or both stand at alike
points. -/
inductive Progress.Alike (names names' : Interner) (base base' : Machine) :
    Progress → Progress → Prop
  | finished {result : Outcome Status} {m m' : Machine} : Faultless result →
      Machine.Alike names names' base base' m m' 0 →
      Alike names names' base base' (.finished result m) (.finished result m')
  | running {c c' : Config} : Config.Alike names names' base base' c c' →
      Alike names names' base base' (.running c) (.running c')

/-- **Alike points are the start of alike runs**, however far they are followed. -/
theorem Config.Alike.run {base base' : Machine} {c c' : Config}
    (h : Config.Alike names names' base base' c c') (fuel : Nat) :
    Progress.Alike names names' base base' (c.run names fuel) (c'.run names' fuel) := by
  -- The induction is on the steps, which both runs take together.
  induction fuel generalizing c c' with
  | zero =>
    -- Without steps left, a run is over just when nothing is left to do, in both.
    obtain ⟨signal, control, m⟩ := c
    obtain ⟨signal', control', m'⟩ := c'
    obtain ⟨hsame, hsignal, hcontrol, hm⟩ := h
    obtain rfl : signal' = signal := hsame
    cases control with
    | nil =>
      cases hcontrol
      exact .finished hsignal hm
    | cons task k =>
      obtain ⟨task', k', rfl⟩ := hcontrol.exists_cons
      exact .running ⟨rfl, hsignal, hcontrol, hm⟩
  | succ fuel ih =>
    -- Both have a task to do, or neither has.
    obtain ⟨signal, control, m⟩ := c
    obtain ⟨signal', control', m'⟩ := c'
    cases control with
    | nil =>
      obtain ⟨hsame, hsignal, hcontrol, hm⟩ := h
      obtain rfl : signal' = signal := hsame
      cases hcontrol
      exact .finished hsignal hm
    | cons task k =>
      obtain ⟨task', k', hk'⟩ := h.control.exists_cons
      obtain rfl : control' = task' :: k' := hk'
      exact ih (Task.alike_step h)

end Silly
