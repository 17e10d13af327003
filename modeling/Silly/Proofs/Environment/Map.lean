import Mathlib.Logic.Function.Basic
import Silly.Environment

/-!
# Scopes do not look at values

The operations on scopes move values about and look at none of them. So they do the same when each
value is changed by a function `g`, before or after (`Environment.map`), and what holds of all values
before an operation holds of them afterwards, if it holds of the one that is stored
(`Environment.All`).
-/

namespace Silly

variable {α β : Type}

/-- **Looking up in a changed list**: what is found under the image of a name is what was found under the
name, changed, as no two names have one image. -/
theorem lookup_map_injective {g : Name → Name} (hg : Function.Injective g) (f : α → β)
    (bs : List (Name × α)) (x : Name) :
    (bs.map fun b => (g b.1, f b.2)).lookup (g x) = (bs.lookup x).map f := by
  induction bs with
  | nil => rfl
  | cons b bs ih =>
    -- The image of the name is at the head just when the name is.
    rw [List.map_cons, List.lookup_cons, List.lookup_cons, ih]
    by_cases hx : x = b.1
    · subst hx
      simp only [beq_self_eq_true, Option.map_some]
    · have hgx : g x ≠ g b.1 := hg.ne hx
      rw [beq_false_of_ne hx, beq_false_of_ne hgx]

namespace Frame

/-- The frame with each value changed. -/
def map (g : α → β) (f : Frame α) : Frame β :=
  ⟨f.bindings.map fun b => (b.1, b.2.map g), f.parent⟩

variable (g : α → β) (f : Frame α) (x : Name)

@[simp] theorem map_parent : (f.map g).parent = f.parent := rfl

@[simp] theorem map_binding? : (f.map g).binding? x = (f.binding? x).map (Option.map g) :=
  lookup_map_injective Function.injective_id (Option.map g) f.bindings x

@[simp] theorem map_declares : (f.map g).declares x = f.declares x := by
  rw [declares, declares, map_binding?, Option.isSome_map]

@[simp] theorem map_declare : (f.map g).declare x = (f.declare x).map g := rfl

@[simp] theorem map_assign (v : α) : (f.map g).assign x (g v) = (f.assign x v).map g := by
  unfold assign map
  -- Binding by binding: the changed one is at `x` in both lists.
  dsimp only
  rw [List.map_map, List.map_map]
  congr 1
  refine List.map_congr_left fun b _ => ?_
  by_cases hb : b.1 = x
  · simp [hb]
  · simp [hb]

end Frame

namespace Environment

/-! ### Changing frame by frame -/

/-- The environment with each frame changed, and the same frames live. -/
def mapFrames (φ : Frame α → Frame β) (env : Environment α) : Environment β :=
  ⟨env.frames.map φ, env.live⟩

section MapFrames

variable {φ : Frame α → Frame β} (env : Environment α)

theorem mapFrames_frame (id : FrameId) :
    (env.mapFrames φ).frame id = (env.frame id).map φ := by
  rw [frame, frame, mapFrames, Array.getElem?_map]
  cases env.frames[id]? <;> rfl

theorem mapFrames_endScope : (env.mapFrames φ).endScope = env.endScope.mapFrames φ := by
  unfold endScope
  show (if 1 < env.live.size then _ else _) = _
  split <;> simp [mapFrames, current]

/-- **A change of one frame** goes before a change of all of them, if the two are compatible. -/
theorem mapFrames_modify (id : FrameId) {f : Frame α → Frame α} {f' : Frame β → Frame β}
    (h : ∀ fr, f' (φ fr) = φ (f fr)) :
    (env.mapFrames φ).modify id f' = (env.modify id f).mapFrames φ := by
  unfold modify mapFrames
  dsimp only
  congr 1
  -- Place by place: the changed frame is at `id`, and `h` is about it.
  refine Array.ext_getElem? fun i => ?_
  rw [Array.getElem?_modify, Array.getElem?_map, Array.getElem?_map, Array.getElem?_modify]
  split
  · cases env.frames[i]? <;> simp [h]
  · rfl

variable (hφ : ∀ parent, φ ⟨[], parent⟩ = ⟨[], parent⟩)
include hφ

theorem mapFrames_initial : (initial : Environment α).mapFrames φ = initial := by
  simp [initial, mapFrames, hφ]

theorem mapFrames_beginScope : (env.mapFrames φ).beginScope = env.beginScope.mapFrames φ := by
  simp [beginScope, mapFrames, hφ, current]

/-- A frame is opened alike, as the new one has nothing that could be changed. -/
theorem mapFrames_beginScopeIn (parent : FrameId) :
    (env.mapFrames φ).beginScopeIn parent =
      ((env.beginScopeIn parent).1, (env.beginScopeIn parent).2.mapFrames φ) := by
  unfold beginScopeIn
  show (if env.live.contains parent then _ else _) = _
  split <;> simp [mapFrames, hφ]

end MapFrames

/-! ### Changing the values -/

/-- The environment with each value changed. -/
def map (g : α → β) (env : Environment α) : Environment β := ⟨env.frames.map (·.map g), env.live⟩

section Map

variable (g : α → β) (env : Environment α) (x : Name)

@[simp] theorem map_current : (env.map g).current = env.current := rfl

@[simp] theorem map_depth : (env.map g).depth = env.depth := rfl

@[simp] theorem map_initial : (initial : Environment α).map g = initial :=
  mapFrames_initial fun _ => rfl

@[simp] theorem map_frame (id : FrameId) :
    (env.map g).frame id = (env.frame id).map (Frame.map g) :=
  env.mapFrames_frame id

@[simp] theorem map_search (id : FrameId) (bound : Nat) :
    (env.map g).search x id bound = env.search x id bound := by
  -- The chain of parents is the same, and the induction follows it up.
  induction bound generalizing id with
  | zero => rfl
  | succ bound ih =>
    rw [search, search, map_frame]
    cases env.frame id with
    | error e => rfl
    | ok f =>
      simp only [Except.map, Frame.map_declares, Frame.map_parent, ih]

@[simp] theorem map_find : (env.map g).find x = env.find x := by
  rw [find, find, map_search, map_current, map, Array.size_map]

@[simp] theorem map_isDeclared : (env.map g).isDeclared x = env.isDeclared x := by
  rw [isDeclared, isDeclared, map_find]

@[simp] theorem map_isLocal : (env.map g).isLocal x = env.isLocal x := by
  rw [isLocal, isLocal, map_current, map_frame]
  cases env.frame env.current <;> simp [Except.map]

@[simp] theorem map_beginScope : (env.map g).beginScope = env.beginScope.map g :=
  env.mapFrames_beginScope fun _ => rfl

@[simp] theorem map_beginScopeIn (parent : FrameId) :
    (env.map g).beginScopeIn parent =
      ((env.beginScopeIn parent).1, (env.beginScopeIn parent).2.map g) :=
  env.mapFrames_beginScopeIn (fun _ => rfl) parent

@[simp] theorem map_endScope : (env.map g).endScope = env.endScope.map g :=
  env.mapFrames_endScope

theorem map_modify (id : FrameId) {f : Frame α → Frame α} {f' : Frame β → Frame β}
    (h : ∀ fr, f' (fr.map g) = (f fr).map g) :
    (env.map g).modify id f' = (env.modify id f).map g :=
  env.mapFrames_modify id h

@[simp] theorem map_declare :
    (env.map g).declare x = ((env.declare x).1, (env.declare x).2.map g) := by
  -- What decides is whether the name is there, which is the same in the changed frames.
  unfold declare
  rw [map_isLocal, map_current]
  cases env.isLocal x with
  | error e => rfl
  | ok here =>
    cases here with
    | true => rfl
    | false => rw [map_modify g env env.current fun fr => Frame.map_declare g fr x]

@[simp] theorem map_store (v : α) :
    (env.map g).store x (g v) = ((env.store x v).1, (env.store x v).2.map g) := by
  unfold store
  -- The place at which the value is stored is the same.
  rw [map_find]
  cases env.find x with
  | error e => rfl
  | ok found =>
    cases found with
    | none => rfl
    | some id =>
      have hmodify : (env.map g).modify id (·.assign x (g v)) =
          (env.modify id (·.assign x v)).map g :=
        map_modify g env id fun fr => Frame.map_assign g fr x v
      exact congrArg (Prod.mk (Except.ok ())) hmodify

/-- **What is looked up is changed**, and it is looked up at the same place. -/
@[simp] theorem map_lookup : (env.map g).lookup x = (env.lookup x).map g := by
  unfold lookup
  rw [map_find]
  cases env.find x with
  | error e => rfl
  | ok found =>
    cases found with
    | none => rfl
    | some id =>
      dsimp only
      rw [map_frame]
      cases env.frame id with
      | error e => rfl
      | ok f =>
        dsimp only [Except.map]
        rw [Frame.map_binding?]
        cases f.binding? x with
        | none => rfl
        | some bound => cases bound <;> rfl

end Map

/-! ### What holds of all values -/

/-- **What holds of the value of each variable** that has one, in each frame. -/
def All (P : α → Prop) (env : Environment α) : Prop :=
  ∀ f ∈ env.frames, ∀ x v, (x, some v) ∈ f.bindings → P v

section All

variable {P Q : α → Prop} {env : Environment α}

theorem All.imp (h : env.All P) (hPQ : ∀ v, P v → Q v) : env.All Q :=
  fun f hf x v hv => hPQ v (h f hf x v hv)

/-- Changes that agree on the values there are agree on the environment. -/
theorem All.map_congr {g g' : α → β} (h : env.All P) (hg : ∀ v, P v → g v = g' v) :
    env.map g = env.map g' := by
  -- Frame by frame, and in each frame binding by binding.
  unfold Environment.map
  congr 1
  refine Array.map_congr_left fun f hf => ?_
  unfold Frame.map
  congr 1
  refine List.map_congr_left fun b hb => ?_
  obtain ⟨x, bound⟩ := b
  cases bound with
  | none => rfl
  | some v => simp [hg v (h f hf x v hb)]

theorem all_initial : (initial : Environment α).All P := by
  intro f hf x v hv
  obtain rfl : f = ⟨[], none⟩ := by simpa [initial] using hf
  cases hv

/-- A frame without variables adds nothing. -/
theorem All.push (h : env.All P) (parent : Option FrameId) (live : Array FrameId) :
    All P ⟨env.frames.push ⟨[], parent⟩, live⟩ := by
  intro f hf x v hv
  rcases Array.mem_push.mp hf with hf | rfl
  · exact h f hf x v hv
  · cases hv

theorem All.beginScope (h : env.All P) : env.beginScope.All P := h.push _ _

theorem All.beginScopeIn (h : env.All P) (parent : FrameId) :
    (env.beginScopeIn parent).2.All P := by
  unfold Environment.beginScopeIn
  split
  · exact h.push _ _
  · exact h

/-- The end of a frame adds no value. -/
theorem All.endScope (h : env.All P) : env.endScope.All P := by
  unfold Environment.endScope
  split
  · -- The frames that stay are a first part of those there were.
    intro f hf
    have hmem : f ∈ env.frames.toList.take env.current := by
      simpa [← Array.mem_toList_iff, Array.toList_shrink] using hf
    exact h f (Array.mem_toList_iff.mp (List.mem_of_mem_take hmem))
  · exact h

/-- A frame with a changed one among them. -/
theorem All.modify (h : env.All P) (id : FrameId) {g : Frame α → Frame α}
    (hg : ∀ f ∈ env.frames, ∀ x v, (x, some v) ∈ (g f).bindings → P v) :
    (env.modify id g).All P := by
  intro f hf x v hv
  -- The frame is the changed one, or it was there before.
  obtain ⟨i, hi⟩ := Array.mem_iff_getElem?.mp hf
  simp only [Environment.modify, Array.getElem?_modify] at hi
  split at hi
  · obtain ⟨f', hf', rfl⟩ := Option.map_eq_some_iff.mp hi
    exact hg f' (Array.mem_of_getElem? hf') x v hv
  · exact h f (Array.mem_of_getElem? hi) x v hv

/-- A new variable has no value. -/
theorem All.declare (h : env.All P) (x : Name) : (env.declare x).2.All P := by
  unfold Environment.declare
  split
  · exact h
  · exact h
  · refine h.modify _ fun f hf y v hv => h f hf y v ?_
    simpa [Frame.declare] using hv

/-- **A new value** has to have the property itself. -/
theorem All.store (h : env.All P) (x : Name) {v : α} (hv : P v) : (env.store x v).2.All P := by
  unfold Environment.store
  split
  · exact h
  · exact h
  · refine h.modify _ fun f hf y w hw => ?_
    -- A value in the changed frame is the new one or was there before.
    obtain ⟨b, hb, hbw⟩ := List.mem_map.mp hw
    split at hbw
    · cases hbw
      exact hv
    · subst hbw
      exact h f hf y w hb

/-- **What is looked up has the property.** -/
theorem All.lookup (h : env.All P) {x : Name} {v : α} (hv : env.lookup x = .ok v) : P v := by
  unfold Environment.lookup at hv
  split at hv
  · cases hv
  · cases hv
  · split at hv
    · cases hv
    · next f hf =>
      split at hv
      · next w hw =>
        cases hv
        -- What is looked up stands in the bindings of a frame that is stored.
        obtain ⟨pre, post, hbindings, -⟩ := List.lookup_eq_some_iff.mp hw
        have hmem : (x, some v) ∈ f.bindings := by simp [hbindings]
        unfold Environment.frame at hf
        split at hf
        · next hget =>
          cases hf
          exact h f (Array.mem_of_getElem? hget) x v hmem
        · cases hf
      · cases hv

end All

end Environment

end Silly
