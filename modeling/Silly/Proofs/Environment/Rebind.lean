import Silly.Proofs.Environment.Scope

/-!
# Changing one binding

A declaration and a new value each change one binding of one frame. All the rest stays as it is, the
frames that are live, their parents and every other binding (`Environment.Rebinds`). Which frame it is
differs. A declaration is in the innermost frame, and a new value goes to the nearest frame that declares
the variable, up the parents (`Environment.Nearest`).

A variable that was just declared is found in the innermost frame itself, so its first value comes to the
place of its declaration (`find_modify_declare`).
-/

namespace Silly

variable {α : Type}

namespace Environment

variable {env env' env'' : Environment α} {x : Name} {id : FrameId} {b b' : Option α}

/-! ### The nearest frame -/

/-- **The nearest frame that declares a variable**, up the parents from a frame. -/
inductive Nearest (env : Environment α) (x : Name) : FrameId → FrameId → Prop
  | here {id : FrameId} {f : Frame α} : env.frames[id]? = some f → f.declares x = true →
      Nearest env x id id
  | up {id parent place : FrameId} {f : Frame α} : env.frames[id]? = some f →
      f.declares x = false → f.parent = some parent → Nearest env x parent place →
      Nearest env x id place

/-- **What the walk up the parents comes to** is the nearest frame. -/
theorem nearest_of_search {place : FrameId} {bound : Nat}
    (h : env.search x id bound = .ok (some place)) : env.Nearest x id place := by
  -- By induction on the bound, which is spent by one for each parent.
  induction bound generalizing id with
  | zero => cases h
  | succ bound ih =>
    rw [search] at h
    cases hframe : env.frame id with
    | error e =>
      rw [hframe] at h
      cases h
    | ok f =>
      have hget := getElem?_of_frame hframe
      rw [hframe] at h
      dsimp only at h
      split at h
      -- The walk has stopped here, so the frame declares the variable.
      · next hx =>
        cases h
        exact .here hget hx
      -- It went on with the parent, and so does the induction.
      · next hx =>
        split at h
        · cases h
        · next parent hparent => exact .up hget (Bool.eq_false_iff.mpr hx) hparent (ih h)

/-- What is found is the nearest frame, up the parents from the innermost one. -/
theorem nearest_of_find (h : env.find x = .ok (some id)) : env.Nearest x env.current id :=
  nearest_of_search h

/-- The nearest frame declares the variable. -/
theorem Nearest.exists_frame {place : FrameId} (h : env.Nearest x id place) :
    ∃ f, env.frames[place]? = some f ∧ f.declares x = true := by
  induction h with
  | here hget hx => exact ⟨_, hget, hx⟩
  | up _ _ _ _ ih => exact ih

/-! ### One binding -/

/-- **Exactly one binding is changed**: the frame at `id` binds `x` to `b`, and everything else is as it
was. -/
structure Rebinds (id : FrameId) (x : Name) (b : Option α) (env env' : Environment α) : Prop where
  live : env'.live = env.live
  size : env'.frames.size = env.frames.size
  frame : ∀ (place : Nat) f, env.frames[place]? = some f → ∃ f', env'.frames[place]? = some f' ∧
    f'.parent = f.parent ∧
    ∀ y, f'.binding? y = if place = id ∧ y = x then some b else f.binding? y

/-- Of two changes of one binding, the second one counts. -/
theorem Rebinds.trans (h : Rebinds id x b env env') (h' : Rebinds id x b' env' env'') :
    Rebinds id x b' env env'' where
  live := h'.live.trans h.live
  size := h'.size.trans h.size
  frame place f hf := by
    obtain ⟨f', hf', hparent, hbinding⟩ := h.frame place f hf
    obtain ⟨f'', hf'', hparent', hbinding'⟩ := h'.frame place f' hf'
    refine ⟨f'', hf'', hparent'.trans hparent, fun y => ?_⟩
    -- If the binding is the changed one, it was changed twice, and the second change counts.
    rw [hbinding', hbinding]
    split
    · rfl
    · rfl

/-- **A change of one frame changes one binding**, if that is all that it does to the frame. -/
theorem rebinds_modify (env : Environment α) {g : Frame α → Frame α}
    (hparent : ∀ f, (g f).parent = f.parent)
    (hbinding : ∀ f, env.frames[id]? = some f →
      ∀ y, (g f).binding? y = if y = x then some b else f.binding? y) :
    Rebinds id x b env (env.modify id g) where
  live := rfl
  size := size_modify env id g
  frame place f hf := by
    -- The frame at `id` is the changed one, and the frames at all other places are what they were.
    by_cases hid : id = place
    · subst hid
      refine ⟨g f, by simp [modify, Array.getElem?_modify, hf], hparent f, fun y => ?_⟩
      simp [hbinding f hf y]
    · refine ⟨f, by simp [modify, Array.getElem?_modify, hid, hf], rfl, fun y => ?_⟩
      rw [if_neg fun h => hid h.1.symm]

/-- **A new variable** has no value. -/
theorem rebinds_declare (env : Environment α) (id : FrameId) (x : Name) :
    Rebinds id x none env (env.modify id (·.declare x)) :=
  env.rebinds_modify (fun _ => rfl) fun f _ y => f.binding?_declare x y

/-- **A new value**, for a variable that the frame declares. -/
theorem rebinds_assign {f : Frame α} (hget : env.frames[id]? = some f) (hx : f.declares x = true)
    (v : α) : Rebinds id x (some v) env (env.modify id (·.assign x v)) := by
  refine env.rebinds_modify (fun _ => rfl) fun f' hget' y => ?_
  obtain rfl : f = f' := Option.some.inj (hget.symm.trans hget')
  rw [Frame.binding?_assign]
  split
  -- The frame declares the variable, so there is a binding for the value to replace.
  · next hy =>
    obtain ⟨bound, hbound⟩ := Option.isSome_iff_exists.mp hx
    rw [hy, hbound, Option.map_some]
  · rfl

/-! ### Declaring and storing -/

/-- A new value is stored where the variable was found, and changes nothing else. -/
theorem Nearest.rebinds {place : FrameId} (h : env.Nearest x id place) (v : α) :
    Rebinds place x (some v) env (env.modify place (·.assign x v)) := by
  obtain ⟨f, hget, hx⟩ := h.exists_frame
  exact rebinds_assign hget hx v

/-- **A variable that is found** is given its value, where it is found. -/
theorem store_of_find (h : env.find x = .ok (some id)) (v : α) :
    env.store x v = (.ok (), env.modify id (·.assign x v)) := by
  rw [store, h]

/-- **The two ways in which a declaration ends**, where the innermost frame is stored. -/
theorem declare_cases {f : Frame α} (hf : env.frames[env.current]? = some f) (x : Name) :
    (f.declares x = true ∧ env.declare x = (.error (.error (.alreadyDeclared x)), env)) ∨
      (f.declares x = false ∧ env.declare x = (.ok (), env.modify env.current (·.declare x))) := by
  have hlocal : env.isLocal x = .ok (f.declares x) := by
    rw [isLocal, frame, hf]
    rfl
  rw [declare, hlocal]
  cases f.declares x with
  | true => exact .inl ⟨rfl, rfl⟩
  | false => exact .inr ⟨rfl, rfl⟩

end Environment

end Silly
