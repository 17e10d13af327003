import Silly.Proofs.Environment.Rebind

/-!
# Variables without a value

A variable has no value between its declaration and the moment when its first value is stored
(`Environment.Unset`). In an environment in which every variable has one (`Environment.Filled`), a
declaration makes the one exception there is, in the innermost frame (`Filled.unset_declare`), and the
value that is stored next comes to the same place, so that there is none again (`filled_of_store`).

A lookup comes to a variable without a value only if there is one (`exists_unset_of_lookup`).
-/

namespace Silly

namespace Environment

variable {α : Type}

/-- **A variable without a value**: the frame at `id` declares it, and binds it to nothing. -/
def Unset (env : Environment α) (id : FrameId) (x : Name) : Prop :=
  ∃ f, env.frames[id]? = some f ∧ f.binding? x = some none

/-- **Every variable has a value.** The frames that are stored are the live ones, so these are all
variables of all live frames. -/
structure Filled (env : Environment α) : Prop where
  tidy : env.Tidy
  assigned : ∀ (id : Nat) f, env.frames[id]? = some f → ∀ x, f.declares x = true → f.Assigned x

variable {env env' : Environment α} {x y : Name} {id place : FrameId} {b : Option α}

/-- Every variable has a value just when none is without one. -/
theorem filled_iff : env.Filled ↔ env.Tidy ∧ ∀ (id : Nat) x, ¬ env.Unset id x := by
  constructor
  -- A variable without a value would be declared, and so have one.
  · rintro ⟨htidy, hassigned⟩
    refine ⟨htidy, fun id x ⟨f, hf, hx⟩ => ?_⟩
    have hdeclares : f.declares x = true := by rw [Frame.declares, hx, Option.isSome_some]
    obtain ⟨v, hv⟩ := hassigned id f hf x hdeclares
    cases hx.symm.trans hv
  -- What a declared variable is bound to is a value, or else it would have none.
  · rintro ⟨htidy, hunset⟩
    refine ⟨htidy, fun id f hf x hx => ?_⟩
    obtain ⟨bound, hbound⟩ := Option.isSome_iff_exists.mp hx
    cases bound with
    | some v => exact ⟨v, hbound⟩
    | none => exact absurd ⟨f, hf, hbound⟩ (hunset id x)

theorem Filled.not_unset (h : env.Filled) (id : FrameId) (x : Name) : ¬ env.Unset id x :=
  (filled_iff.mp h).2 id x

/-- Only the global frame is live, and nothing is declared in it. -/
theorem filled_initial : (initial : Environment α).Filled where
  tidy := tidy_initial
  assigned id f hf x hx := by
    obtain rfl : f = ⟨[], none⟩ := by
      -- No frame but the first one is stored.
      cases id with
      | zero => exact (Option.some.inj hf).symm
      | succ id => cases hf
    cases hx

/-- **A new frame** declares nothing. -/
theorem Filled.opened (h : env.Filled) (parent : FrameId) : (env.opened parent).Filled where
  tidy := h.tidy.opened parent
  assigned id f hf x hx := by
    -- The frame is the new one, which declares nothing, or it was there before.
    rw [Environment.opened, Array.getElem?_push] at hf
    split at hf
    · cases hf
      cases hx
    · exact h.assigned id f hf x hx

/-- What is stored after the end of a frame was stored before. -/
theorem getElem?_of_endScope {f : Frame α} {id : Nat} (hf : env.endScope.frames[id]? = some f) :
    env.frames[id]? = some f := by
  unfold Environment.endScope at hf
  split at hf
  · rw [Array.shrink_eq_take, Array.take_eq_extract, Array.getElem?_extract, Nat.zero_add] at hf
    split at hf
    · exact hf
    · cases hf
  · exact hf

/-- **The end of a frame** takes nothing but its own variables away. -/
theorem Filled.endScope (h : env.Filled) : env.endScope.Filled where
  tidy := h.tidy.endScope
  assigned id f hf := h.assigned id f (getElem?_of_endScope hf)

/-! ### Changing a binding -/

/-- **Which variables have no value after a change**: those that had none, but for the one that was
changed, and this one if its new binding is nothing. -/
theorem Rebinds.unset (h : Rebinds id x b env env') (hy : env'.Unset place y) :
    (place = id ∧ y = x ∧ b = none) ∨ (¬(place = id ∧ y = x) ∧ env.Unset place y) := by
  obtain ⟨f', hf', hbinding'⟩ := hy
  -- The place is that of a frame before the change, whose binding is known there.
  have hlt : place < env.frames.size := h.size ▸ (Array.getElem?_eq_some_iff.mp hf').1
  obtain ⟨f'', hf'', -, hbinding⟩ := h.frame place _ (Array.getElem?_eq_getElem hlt)
  obtain rfl : f' = f'' := Option.some.inj (hf'.symm.trans hf'')
  rw [hbinding] at hbinding'
  split at hbinding'
  · next hplace => exact .inl ⟨hplace.1, hplace.2, Option.some.inj hbinding'⟩
  · next hplace => exact .inr ⟨hplace, _, Array.getElem?_eq_getElem hlt, hbinding'⟩

theorem Rebinds.tidy (h : Rebinds id x b env env') (htidy : env.Tidy) : env'.Tidy where
  live := by rw [h.live, h.size, htidy.live]
  pos := h.size ▸ htidy.pos

/-- **A declaration** leaves one variable without a value, and this is the one that is found under its
name. -/
theorem Filled.unset_declare (h : env.Filled) (hdeclare : env.declare x = (.ok (), env')) :
    env'.Tidy ∧ env'.find x = .ok (some env'.current) ∧
      ∀ place y, env'.Unset place y → place = env'.current ∧ y = x := by
  -- The innermost frame is stored, so the declaration is refused or carried out.
  have hlt : env.current < env.frames.size := by
    rw [h.tidy.current_eq]
    exact Nat.sub_one_lt_of_lt h.tidy.pos
  have hf := Array.getElem?_eq_getElem hlt
  obtain ⟨-, hrefused⟩ | ⟨-, hdeclared⟩ := declare_cases hf x
  -- The variable was there already, so it was refused.
  · cases hdeclare.symm.trans hrefused
  · cases hdeclare.symm.trans hdeclared
    have hnew := env.rebinds_declare env.current x
    have hframe : env.frame env.current = .ok env.frames[env.current] := by rw [frame, hf]
    -- A variable without a value is the new one, as all others had values before.
    refine ⟨hnew.tidy h.tidy, find_modify_declare hframe x, fun place y hy => ?_⟩
    obtain ⟨hplace, hyx, -⟩ | ⟨-, hunset⟩ := hnew.unset hy
    · exact ⟨hplace, hyx⟩
    · exact absurd hunset (h.not_unset place y)

/-- **A value that is stored** makes the environment filled, if there is no variable without a value but
the one that it goes to. -/
theorem filled_of_store {v : α} (htidy : env.Tidy)
    (hunset : ∀ place y, env.Unset place y → env.find x = .ok (some place) ∧ y = x)
    (hstore : env.store x v = (.ok (), env')) : env'.Filled := by
  rw [store] at hstore
  cases hfind : env.find x with
  | error f =>
    rw [hfind] at hstore
    cases hstore
  | ok found =>
    rw [hfind] at hstore
    cases found with
    | none => cases hstore
    | some id =>
      cases hstore
      -- What was stored is the binding of the nearest frame that declares the variable.
      have hrebinds := (nearest_of_find hfind).rebinds v
      refine filled_iff.mpr ⟨hrebinds.tidy htidy, fun place y hy => ?_⟩
      obtain ⟨-, -, hnone⟩ | ⟨hother, hy⟩ := hrebinds.unset hy
      -- A variable that has no value still would be another one than the one that was stored, but that
      -- was the only one.
      · cases hnone
      · obtain ⟨hplace, rfl⟩ := hunset place y hy
        obtain rfl : place = id := Option.some.inj (Except.ok.inj (hplace.symm.trans hfind))
        exact hother ⟨rfl, rfl⟩

/-! ### Looking up -/

/-- **A lookup that fails for want of a value** has come to a variable without one. -/
theorem exists_unset_of_lookup (h : env.lookup x = .error (.error (.unassigned y))) :
    y = x ∧ ∃ id, env.find x = .ok (some id) ∧ env.Unset id x := by
  rw [lookup] at h
  cases hfind : env.find x with
  | error f =>
    rw [hfind] at h
    cases h
  | ok found =>
    rw [hfind] at h
    cases found with
    | none => cases h
    | some id =>
      -- The frame that was found declares the variable, so what is missing is the value.
      obtain ⟨f, hget, hx⟩ := (nearest_of_find hfind).exists_frame
      obtain ⟨bound, hbound⟩ := Option.isSome_iff_exists.mp hx
      have hframe : env.frame id = .ok f := by rw [frame, hget]
      simp only [hframe, hbound] at h
      cases bound with
      | some v => cases h
      | none =>
        cases h
        exact ⟨rfl, id, rfl, f, hget, hbound⟩

end Environment

end Silly
