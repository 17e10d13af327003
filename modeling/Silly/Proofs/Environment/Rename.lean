import Silly.Proofs.Environment.Map

/-!
# Scopes compare names and do nothing else with them

The operations on scopes look a name up among those that are bound, and that is all they do with it. So
they do the same when each name is replaced by its image under an injective function `g`, before or
after (`Environment.rename`): a variable is found in the same frame, and is bound to the same value.
Where an operation fails, it fails for the same reason and names the image (`ScopeOutcome.rename`).
-/

namespace Silly

variable {α : Type}

namespace Frame

/-- The frame with each name changed. -/
def rename (g : Name → Name) (f : Frame α) : Frame α :=
  ⟨f.bindings.map fun b => (g b.1, b.2), f.parent⟩

variable {g : Name → Name} (f : Frame α) (x : Name)

@[simp] theorem rename_parent : (f.rename g).parent = f.parent := rfl

@[simp] theorem rename_declare : (f.rename g).declare (g x) = (f.declare x).rename g := rfl

section Injective

variable (hg : Function.Injective g)
include hg

/-- **A name is bound to what it was bound to**, as no other name has the same image. -/
theorem rename_binding? : (f.rename g).binding? (g x) = f.binding? x :=
  (lookup_map_injective hg id f.bindings x).trans Option.map_id_apply

theorem rename_declares : (f.rename g).declares (g x) = f.declares x := by
  rw [declares, declares, f.rename_binding? x hg]

/-- A value is stored under the new name. -/
theorem rename_assign (v : α) : (f.rename g).assign (g x) v = (f.assign x v).rename g := by
  unfold assign rename
  dsimp only
  rw [List.map_map, List.map_map]
  congr 1
  -- Binding by binding: the image of a name is `g x` just when the name is `x`.
  refine List.map_congr_left fun b _ => ?_
  show (if g b.1 = g x then (g x, some v) else (g b.1, b.2)) =
    (g (if b.1 = x then (x, some v) else b).1, (if b.1 = x then (x, some v) else b).2)
  by_cases hb : b.1 = x
  · rw [if_pos (congrArg g hb), if_pos hb]
  · rw [if_neg (hg.ne hb), if_neg hb]

end Injective

end Frame

/-! ### Outcomes -/

/-- The complaint about another variable. -/
def ScopeError.rename (g : Name → Name) : ScopeError → ScopeError
  | undeclared x => undeclared (g x)
  | alreadyDeclared x => alreadyDeclared (g x)
  | unassigned x => unassigned (g x)

/-- The same outcome, where a complaint is about another variable. -/
def ScopeOutcome.rename (g : Name → Name) : ScopeOutcome α → ScopeOutcome α
  | .ok a => .ok a
  | .error (.error e) => .error (.error (e.rename g))
  | .error (.fault f) => .error (.fault f)

@[simp] theorem ScopeError.rename_name (g : Name → Name) (e : ScopeError) :
    (e.rename g).name = g e.name := by
  cases e <;> rfl

/-! ### Environments -/

namespace Environment

/-- The environment with each name changed. -/
def rename (g : Name → Name) (env : Environment α) : Environment α := env.mapFrames (·.rename g)

variable {g : Name → Name} (env : Environment α) (x : Name)

@[simp] theorem rename_current : (env.rename g).current = env.current := rfl

@[simp] theorem rename_depth : (env.rename g).depth = env.depth := rfl

@[simp] theorem size_rename : (env.rename g).frames.size = env.frames.size := Array.size_map

@[simp] theorem rename_initial : (initial : Environment α).rename g = initial :=
  mapFrames_initial fun _ => rfl

@[simp] theorem rename_frame (id : FrameId) :
    (env.rename g).frame id = (env.frame id).map (Frame.rename g) :=
  env.mapFrames_frame id

@[simp] theorem rename_beginScope : (env.rename g).beginScope = env.beginScope.rename g :=
  env.mapFrames_beginScope fun _ => rfl

@[simp] theorem rename_beginScopeIn (parent : FrameId) :
    (env.rename g).beginScopeIn parent =
      ((env.beginScopeIn parent).1, (env.beginScopeIn parent).2.rename g) :=
  env.mapFrames_beginScopeIn (fun _ => rfl) parent

@[simp] theorem rename_endScope : (env.rename g).endScope = env.endScope.rename g :=
  env.mapFrames_endScope

section Injective

variable (hg : Function.Injective g)
include hg

/-- **The walk up the parents** stops where it stopped. -/
theorem rename_search (id : FrameId) (bound : Nat) :
    (env.rename g).search (g x) id bound = env.search x id bound := by
  -- The chain of parents is the same, and the induction follows it up.
  induction bound generalizing id with
  | zero => rfl
  | succ bound ih =>
    rw [search, search, rename_frame]
    cases env.frame id with
    | error e => rfl
    | ok f => simp only [Except.map, f.rename_declares x hg, Frame.rename_parent, ih]

theorem rename_find : (env.rename g).find (g x) = env.find x := by
  rw [find, find, env.rename_search x hg, rename_current, size_rename]

theorem rename_isDeclared : (env.rename g).isDeclared (g x) = env.isDeclared x := by
  rw [isDeclared, isDeclared, env.rename_find x hg]

theorem rename_isLocal : (env.rename g).isLocal (g x) = env.isLocal x := by
  rw [isLocal, isLocal, rename_current, rename_frame]
  cases env.frame env.current with
  | error e => rfl
  | ok f => exact congrArg Except.ok (f.rename_declares x hg)

/-- **A new variable** under its new name. -/
theorem rename_declare :
    (env.rename g).declare (g x) =
      ((env.declare x).1.rename g, (env.declare x).2.rename g) := by
  unfold declare
  -- What decides is whether the name is there, which is the same under its image.
  rw [env.rename_isLocal x hg, rename_current]
  cases env.isLocal x with
  | error e => rfl
  | ok here =>
    cases here with
    | true => rfl
    | false =>
      have hmodify : (env.rename g).modify env.current (·.declare (g x)) =
          (env.modify env.current (·.declare x)).rename g :=
        env.mapFrames_modify env.current fun fr => fr.rename_declare x
      exact congrArg (Prod.mk (Except.ok ())) hmodify

/-- **A new value** for a variable under its new name. -/
theorem rename_store (v : α) :
    (env.rename g).store (g x) v =
      ((env.store x v).1.rename g, (env.store x v).2.rename g) := by
  unfold store
  -- The value goes to the same frame, where it is stored under the image.
  rw [env.rename_find x hg]
  cases env.find x with
  | error e => rfl
  | ok found =>
    cases found with
    | none => rfl
    | some id =>
      have hmodify : (env.rename g).modify id (·.assign (g x) v) =
          (env.modify id (·.assign x v)).rename g :=
        env.mapFrames_modify id fun fr => fr.rename_assign x hg v
      exact congrArg (Prod.mk (Except.ok ())) hmodify

/-- **The value of a variable** under its new name is the one that it had under the old. -/
theorem rename_lookup : (env.rename g).lookup (g x) = (env.lookup x).rename g := by
  unfold lookup
  -- The same frame is found, and has the same binding under the image.
  rw [env.rename_find x hg]
  cases env.find x with
  | error e => rfl
  | ok found =>
    cases found with
    | none => rfl
    | some id =>
      dsimp only
      rw [rename_frame]
      cases env.frame id with
      | error e => rfl
      | ok f =>
        dsimp only [Except.map]
        rw [f.rename_binding? x hg]
        cases f.binding? x with
        | none => rfl
        | some bound => cases bound <;> rfl

end Injective

end Environment

end Silly
