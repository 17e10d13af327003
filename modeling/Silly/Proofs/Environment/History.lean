import Silly.Environment

/-!
# Scopes whose frames are never used again

An `Environment` knows its frames by their places, and a place is used again after its frame has
ended. Said without places, scopes are a `History`: the record of all frames that there have been.
Each frame has a serial number, which is never given out again, and a parent, which never changes.
Frames that have ended stay in the record, where nothing reads them.

Both are used by the same operations (`ScopeUse`) and give the same kind of answers (`ScopeAnswer`).
They differ in what a client names a frame by: its place in the one, its serial number in the other.
-/

namespace Silly

/-! ### Operations on scopes -/

/-- **One use of scopes** by a client that knows frames by an `ι`. -/
inductive ScopeUse (ι α : Type)
  | beginScope
  /-- A new frame with the given parent, which has to be live. -/
  | beginScopeIn (parent : ι)
  | endScope
  | declare (x : Name)
  | store (x : Name) (v : α)
  | lookup (x : Name)
  | isDeclared (x : Name)
  | isLocal (x : Name)
  | depth

namespace ScopeUse

variable {ι κ α : Type}

/-- The same use by a client that knows the frame `p` by `g p`. -/
def map (g : ι → κ) : ScopeUse ι α → ScopeUse κ α
  | beginScope => .beginScope
  | beginScopeIn p => .beginScopeIn (g p)
  | endScope => .endScope
  | declare x => .declare x
  | store x v => .store x v
  | lookup x => .lookup x
  | isDeclared x => .isDeclared x
  | isLocal x => .isLocal x
  | depth => .depth

/-- Whether a frame is created. -/
def creates : ScopeUse ι α → Bool
  | beginScope | beginScopeIn _ => true
  | _ => false

end ScopeUse

/-- **What a use of scopes answers.** -/
inductive ScopeAnswer (α : Type)
  | done
  | value (v : α)
  | truth (b : Bool)
  | number (n : Nat)
  /-- The variable cannot be used. -/
  | refused (e : ScopeError)
  /-- A frame is looked up that does not exist. -/
  | fault (f : Fault)

/-- Uses one after the other, with their answers. -/
def answers {S U A : Type} (use : S → U → A × S) : S → List U → List A × S
  | s, [] => ([], s)
  | s, u :: us =>
    let (a, s) := use s u
    let (as, s) := answers use s us
    (a :: as, s)

/-- **States that are related answer alike** if each use answers alike and keeps them related. -/
theorem answers_of_related {S T U A : Type} {use : S → U → A × S} {use' : T → U → A × T}
    {R : S → T → Prop}
    (hstep : ∀ s t u, R s t → (use s u).1 = (use' t u).1 ∧ R (use s u).2 (use' t u).2)
    {s : S} {t : T} (h : R s t) (us : List U) :
    (answers use s us).1 = (answers use' t us).1 ∧
      R (answers use s us).2 (answers use' t us).2 := by
  -- By induction on the uses. The next ones are made of the states that this one left.
  induction us generalizing s t with
  | nil => exact ⟨rfl, h⟩
  | cons u us ih =>
    obtain ⟨hanswer, hnext⟩ := hstep s t u h
    obtain ⟨hanswers, hend⟩ := ih hnext
    refine ⟨?_, hend⟩
    simp only [answers, hanswer, hanswers]

/-! ### The record of all frames -/

/-- **What a frame is known by for good**: how many frames were created before it. -/
abbrev Serial := Nat

/-- **All frames that there have been**, with those that are live. -/
structure History (α : Type) where
  /-- How many frames were created, which is the serial number of the next one. -/
  created : Nat
  parent : Serial → Option Serial
  /-- What each frame binds its variables to. -/
  vars : Serial → Name → Option (Option α)
  /-- The live frame that was created last. -/
  innermost : Serial
  /-- The other live frames, newest first. -/
  others : List Serial
  known : ∀ u ∈ innermost :: others, u < created
  /-- A frame is created after its parent. -/
  older : ∀ u p, parent u = some p → p < u

namespace History

variable {α : Type}

/-- The live frames, newest first. -/
def live (h : History α) : List Serial := h.innermost :: h.others

/-- Only the global frame was created. -/
def initial : History α :=
  ⟨1, fun _ => none, fun _ _ => none, 0, [], by simp, by simp⟩

/-- **A new frame** inside the live frame `p`. -/
def create (h : History α) (p : Serial) (hp : p ∈ h.live) : History α where
  created := h.created + 1
  parent u := if u = h.created then some p else h.parent u
  vars u := if u = h.created then fun _ => none else h.vars u
  innermost := h.created
  others := h.live
  known u hu := by
    rcases List.mem_cons.mp hu with rfl | hu
    · exact Nat.lt_succ_self _
    · exact Nat.lt_succ_of_lt (h.known u hu)
  older u q hq := by
    split at hq
    · next hu =>
      cases hq
      exact hu ▸ h.known p hp
    · exact h.older u q hq

/-- **The end of the innermost frame.** The global frame does not end. -/
def close (h : History α) : History α :=
  match hothers : h.others with
  | [] => h
  | u :: us =>
    { h with
      innermost := u
      others := us
      known := fun v hv => h.known v (List.mem_cons_of_mem _ (hothers ▸ hv)) }

/-- The record with a variable of the frame `u` bound to `b`. -/
def bind (h : History α) (u : Serial) (x : Name) (b : Option α) : History α :=
  { h with vars := fun v y => if v = u ∧ y = x then some b else h.vars v y }

/-- **What a name means in the frame `u`**: the nearest frame that declares it, up the parents. -/
def resolve (h : History α) (x : Name) (u : Serial) : Option Serial :=
  if (h.vars u x).isSome then some u
  else
    match hp : h.parent u with
    | none => none
    | some p =>
      have : p < u := h.older u p hp
      h.resolve x p
termination_by u

section Resolve

variable {h : History α} {x : Name} {u p : Serial}

theorem resolve_of_declared (hx : (h.vars u x).isSome = true) : h.resolve x u = some u := by
  rw [resolve, if_pos hx]

/-- Where there is no parent, a name that is not declared means nothing. -/
theorem resolve_of_root (hx : ¬ (h.vars u x).isSome = true) (hp : h.parent u = none) :
    h.resolve x u = none := by
  rw [resolve, if_neg hx]
  split
  · rfl
  · next hp' => rw [hp] at hp'; cases hp'

/-- Everywhere else a name means what it means in the parent. -/
theorem resolve_of_parent (hx : ¬ (h.vars u x).isSome = true) (hp : h.parent u = some p) :
    h.resolve x u = h.resolve x p := by
  rw [resolve, if_neg hx]
  -- The definition looks at the parent to see that it is older, so the cases have to be made again.
  split
  · next hp' => rw [hp] at hp'; cases hp'
  · next p' hp' =>
    obtain rfl : p = p' := Option.some.inj (hp.symm.trans hp')
    rfl

end Resolve

/-- **One use.** Everything acts on the innermost frame, and on what names mean in it. -/
def use (h : History α) : ScopeUse Serial α → ScopeAnswer α × History α
  | .beginScope => (.done, h.create h.innermost List.mem_cons_self)
  | .beginScopeIn p =>
    if hp : p ∈ h.live then (.done, h.create p hp) else (.fault (.frame p), h)
  | .endScope => (.done, h.close)
  | .declare x =>
    if (h.vars h.innermost x).isSome then (.refused (.alreadyDeclared x), h)
    else (.done, h.bind h.innermost x none)
  | .store x v =>
    match h.resolve x h.innermost with
    | none => (.refused (.undeclared x), h)
    | some u => (.done, h.bind u x (some v))
  | .lookup x =>
    match h.resolve x h.innermost with
    | none => (.refused (.undeclared x), h)
    | some u =>
      match h.vars u x with
      | some (some v) => (.value v, h)
      | _ => (.refused (.unassigned x), h)
  | .isDeclared x => (.truth (h.resolve x h.innermost).isSome, h)
  | .isLocal x => (.truth (h.vars h.innermost x).isSome, h)
  | .depth => (.number h.live.length, h)

/-- **Uses that name live frames only**, each at its moment. -/
def Admits (h : History α) : List (ScopeUse Serial α) → Prop
  | [] => True
  | use :: uses => (∀ p, use = .beginScopeIn p → p ∈ h.live) ∧ (h.use use).2.Admits uses

/-- **No frame is missing** in a record. The only frame that can be missing is one that the client
names. -/
theorem not_fault_of_admits {h : History α} (uses : List (ScopeUse Serial α))
    (hadmits : h.Admits uses) (f : Fault) : .fault f ∉ (answers History.use h uses).1 := by
  -- By induction on the uses. Only a use that names a parent could answer with a fault.
  induction uses generalizing h with
  | nil => exact List.not_mem_nil
  | cons use uses ih =>
    obtain ⟨hlive, hrest⟩ := hadmits
    have hanswer : (h.use use).1 ≠ .fault f := by
      cases use with
      | beginScopeIn p => simp [History.use, hlive p rfl]
      | declare x | store x v =>
        simp only [History.use]
        split <;> simp
      | lookup x =>
        simp only [History.use]
        split
        · simp
        · split <;> simp
      | _ => simp [History.use]
    intro hf
    rcases List.mem_cons.mp hf with heq | hf
    · exact hanswer heq.symm
    · exact ih hrest hf

end History

/-! ### An environment and its client -/

namespace Environment

variable {α : Type}

/-- **One use of an environment**, which knows frames by their places. -/
def use (env : Environment α) : ScopeUse FrameId α → ScopeAnswer α × Environment α
  | .beginScope => (.done, env.beginScope)
  | .beginScopeIn p =>
    match env.beginScopeIn p with
    | (.ok (), env) => (.done, env)
    | (.error f, env) => (.fault f, env)
  | .endScope => (.done, env.endScope)
  | .declare x =>
    match env.declare x with
    | (.ok (), env) => (.done, env)
    | (.error (.error e), env) => (.refused e, env)
    | (.error (.fault f), env) => (.fault f, env)
  | .store x v =>
    match env.store x v with
    | (.ok (), env) => (.done, env)
    | (.error (.error e), env) => (.refused e, env)
    | (.error (.fault f), env) => (.fault f, env)
  | .lookup x =>
    match env.lookup x with
    | .ok v => (.value v, env)
    | .error (.error e) => (.refused e, env)
    | .error (.fault f) => (.fault f, env)
  | .isDeclared x =>
    match env.isDeclared x with
    | .ok b => (.truth b, env)
    | .error f => (.fault f, env)
  | .isLocal x =>
    match env.isLocal x with
    | .ok b => (.truth b, env)
    | .error f => (.fault f, env)
  | .depth => (.number env.depth, env)

end Environment

/-- **An environment with a client** that has written down the place of each frame when it was
created, and goes by that from then on. -/
structure Tenancy (α : Type) where
  env : Environment α
  /-- The places that were given out, in the order of the serial numbers. -/
  places : Array FrameId

namespace Tenancy

variable {α : Type}

/-- Only the global frame was created. -/
def initial : Tenancy α := ⟨.initial, #[FrameId.global]⟩

/-- The place that a frame was given. -/
def place (t : Tenancy α) (u : Serial) : FrameId := t.places.getD u FrameId.global

/-- **One use.** A frame is named by the place that it was given, and a new one is at the place of
the innermost frame. -/
def use (t : Tenancy α) (use : ScopeUse Serial α) : ScopeAnswer α × Tenancy α :=
  let (answer, env) := t.env.use (use.map t.place)
  (answer, ⟨env, if use.creates then t.places.push env.current else t.places⟩)

end Tenancy

end Silly
