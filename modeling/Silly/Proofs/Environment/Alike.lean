import Silly.Proofs.Environment.Frames
import Silly.Proofs.Table

/-!
# The same frames at other places

Two runs of one program may differ in the numbers of their names, and in the places of their frames:
the one may have been started on top of other frames than the other. What is below the start is out of
reach for both, but for the global frame. So the frames in reach are the global one and those opened
since, and the `i`-th frame opened since is a counterpart of the `i`-th of the other run
(`Counterparts`).

Two environments are *alike* (`Environment.Alike`) when counterparts declare the same variables, with
the same values, inside counterparts. Then a variable is found in the one just when it is found in the
other, and in counterparts, as a walk up the parents takes the same steps in both. The operations on
scopes keep environments alike, and leave the frames that are out of reach as they were.
-/

namespace Silly

variable {α : Type} {names names' : Interner}

/-! ### Alike frames -/

/-- **Two frames with the same variables**, by their texts, bound to the same values. -/
structure Frame.Alike (names names' : Interner) (f f' : Frame α) : Prop where
  binding : ∀ x x', names.SameText names' x x' → f'.binding? x' = f.binding? x
  known : ∀ x, f.declares x = true → ∃ x', names.SameText names' x x'
  known' : ∀ x', f'.declares x' = true → ∃ x, names.SameText names' x x'

namespace Frame

variable {f f' : Frame α} {x x' : Name}

/-- Frames without variables. -/
theorem alike_nil (parent parent' : Option FrameId) :
    Frame.Alike names names' (⟨[], parent⟩ : Frame α) ⟨[], parent'⟩ where
  binding _ _ _ := rfl
  known x hx := by cases hx
  known' x' hx' := by cases hx'

theorem Alike.declares_eq (h : f.Alike names names' f') (hx : names.SameText names' x x') :
    f'.declares x' = f.declares x := by
  rw [declares, declares, h.binding x x' hx]

/-- What a frame declares once a variable is declared in it. -/
theorem declares_declare (f : Frame α) (x y : Name) :
    (f.declare x).declares y = true ↔ y = x ∨ f.declares y = true := by
  rw [declares, binding?_declare]
  by_cases hy : y = x
  · simp [hy]
  · simp [hy, declares]

/-- An assignment declares nothing. -/
theorem declares_assign (f : Frame α) (x y : Name) (v : α) :
    (f.assign x v).declares y = f.declares y := by
  rw [declares, declares, binding?_assign]
  by_cases hy : y = x
  · rw [if_pos hy, Option.isSome_map]
  · rw [if_neg hy]

/-- **The same variable may be declared** in two alike frames. -/
theorem Alike.declare (h : f.Alike names names' f') (hx : names.SameText names' x x') :
    (f.declare x).Alike names names' (f'.declare x') where
  binding y y' hy := by
    rw [binding?_declare, binding?_declare, h.binding y y' hy]
    -- The variable that is asked for is the new one in both frames, or in neither.
    exact if_congr (hy.eq_iff hx).symm rfl rfl
  known y hy := by
    rcases (declares_declare f x y).mp hy with rfl | hy
    · exact ⟨x', hx⟩
    · exact h.known y hy
  known' y' hy' := by
    rcases (declares_declare f' x' y').mp hy' with rfl | hy'
    · exact ⟨x, hx⟩
    · exact h.known' y' hy'

/-- **The same value may be stored** in two alike frames. -/
theorem Alike.assign (h : f.Alike names names' f') (hx : names.SameText names' x x') (v : α) :
    (f.assign x v).Alike names names' (f'.assign x' v) where
  binding y y' hy := by
    rw [binding?_assign, binding?_assign, h.binding y y' hy]
    exact if_congr (hy.eq_iff hx).symm rfl rfl
  known y hy := h.known y (by rwa [declares_assign] at hy)
  known' y' hy' := h.known' y' (by rwa [declares_assign] at hy')

/-- A frame is alike to itself still when names are added to the table. -/
theorem Alike.extend (he : names.Extends names') (h : f.Alike names names f) :
    f.Alike names' names' f where
  binding x x' hx := by rw [hx.eq]
  known x hx := by
    obtain ⟨x', hx'⟩ := h.known x hx
    exact ⟨x', hx'.of_extends he he⟩
  known' x hx := by
    obtain ⟨x', hx'⟩ := h.known' x hx
    exact ⟨x', hx'.of_extends he he⟩

end Frame

/-! ### Counterparts -/

/-- **The places of counterparts**, in runs that were started on top of `n` and `n'` frames and have
opened `d` more: the global frame, or the `i`-th of those that were opened. -/
def Counterparts (n n' d id id' : Nat) : Prop :=
  (id = 0 ∧ id' = 0) ∨ ∃ i < d, id = n + i ∧ id' = n' + i

/-- The parents of counterparts are counterparts again, at smaller places. Only the global frames have
none. -/
inductive ParentsAlike (n n' d id id' : Nat) : Option FrameId → Option FrameId → Prop
  | global : id = 0 → id' = 0 → ParentsAlike n n' d id id' none none
  | inside {p p' : Nat} : Counterparts n n' d p p' → p < id → p' < id' →
      ParentsAlike n n' d id id' (some p) (some p')

section Counterparts

variable {n n' d id id' : Nat}

theorem Counterparts.global (n n' d : Nat) : Counterparts n n' d FrameId.global FrameId.global :=
  .inl ⟨rfl, rfl⟩

theorem Counterparts.succ (h : Counterparts n n' d id id') : Counterparts n n' (d + 1) id id' := by
  obtain h | ⟨i, hi, h⟩ := h
  · exact .inl h
  · exact .inr ⟨i, Nat.lt_succ_of_lt hi, h⟩

theorem Counterparts.lt (hn : 0 < n) (h : Counterparts n n' d id id') : id < n + d := by
  obtain ⟨rfl, -⟩ | ⟨i, hi, rfl, -⟩ := h
  · exact Nat.lt_of_lt_of_le hn (Nat.le_add_right n d)
  · omega

theorem Counterparts.lt' (hn' : 0 < n') (h : Counterparts n n' d id id') : id' < n' + d := by
  obtain ⟨-, rfl⟩ | ⟨i, hi, -, rfl⟩ := h
  · exact Nat.lt_of_lt_of_le hn' (Nat.le_add_right n' d)
  · omega

/-- What has a counterpart is the global frame or was opened since. -/
theorem Counterparts.global_or_ge (h : Counterparts n n' d id id') : id = 0 ∨ n ≤ id := by
  obtain ⟨rfl, -⟩ | ⟨i, -, rfl, -⟩ := h
  · exact .inl rfl
  · exact .inr (Nat.le_add_right n i)

theorem Counterparts.global_or_ge' (h : Counterparts n n' d id id') : id' = 0 ∨ n' ≤ id' := by
  obtain ⟨-, rfl⟩ | ⟨i, -, -, rfl⟩ := h
  · exact .inl rfl
  · exact .inr (Nat.le_add_right n' i)

/-- **A frame has one counterpart.** -/
theorem Counterparts.eq_iff {j j' : Nat} (hn : 0 < n) (hn' : 0 < n')
    (h : Counterparts n n' d id id') (hj : Counterparts n n' d j j') : id = j ↔ id' = j' := by
  -- Either is the global frame or one that was opened, and the places tell which.
  obtain ⟨rfl, rfl⟩ | ⟨i, -, rfl, rfl⟩ := h
  all_goals
    obtain ⟨rfl, rfl⟩ | ⟨k, -, rfl, rfl⟩ := hj
    all_goals omega

/-- The global frames have no parents. -/
theorem ParentsAlike.eq_none {p p' : Option FrameId} (h : ParentsAlike n n' d 0 0 p p') :
    p = none ∧ p' = none := by
  cases h with
  | global => exact ⟨rfl, rfl⟩
  | inside _ hlt => exact absurd hlt (Nat.not_lt_zero _)

theorem ParentsAlike.succ {p p' : Option FrameId} (h : ParentsAlike n n' d id id' p p') :
    ParentsAlike n n' (d + 1) id id' p p' := by
  cases h with
  | global hid hid' => exact .global hid hid'
  | inside hp hlt hlt' => exact .inside hp.succ hlt hlt'

/-- What is further out than the frame that ends stays. -/
theorem ParentsAlike.of_succ {p p' : Option FrameId} (hid : Counterparts n n' d id id')
    (h : ParentsAlike n n' (d + 1) id id' p p') : ParentsAlike n n' d id id' p p' := by
  -- The global frame has no parent. For all others it has to be seen that the parent is not the frame
  -- that ends.
  cases h with
  | global hid hid' => exact .global hid hid'
  | inside hp hlt hlt' =>
    refine .inside ?_ hlt hlt'
    obtain hp | ⟨i, -, rfl, rfl⟩ := hp
    · exact .inl hp
    · -- The frame itself is one of the first `d`, and the parent is before it.
      obtain ⟨rfl, -⟩ | ⟨k, hk, rfl, -⟩ := hid
      · exact absurd hlt (Nat.not_lt_zero _)
      · have hi : i < k := Nat.lt_of_add_lt_add_left hlt
        exact .inr ⟨i, Nat.lt_trans hi hk, rfl, rfl⟩

end Counterparts

/-! ### What was reached from an environment -/

namespace Environment

/-- **What was reached from `base`** by opening `d` frames: the frames of `base` are as they were, but
for the global one. -/
structure Above (base env : Environment α) (d : Nat) : Prop where
  pos : 0 < base.frames.size
  tidy : env.Tidy
  size : env.frames.size = base.frames.size + d
  kept : ∀ id, 0 < id → id < base.frames.size → env.frames[id]? = base.frames[id]?

namespace Above

variable {base env : Environment α} {d : Nat}

theorem refl (h : base.Tidy) : base.Above base 0 := ⟨h.pos, h, rfl, fun _ _ _ => rfl⟩

theorem current_eq (h : base.Above env d) : env.current = base.frames.size + d - 1 := by
  rw [h.tidy.current_eq, h.size]

/-- A change to the global frame, or to one that was opened since. -/
theorem modify (h : base.Above env d) {id : Nat} (hid : id = 0 ∨ base.frames.size ≤ id)
    (g : Frame α → Frame α) : base.Above (env.modify id g) d where
  pos := h.pos
  tidy := h.tidy.modify id g
  size := (size_modify env id g).trans h.size
  kept place hpos hlt := by
    -- A frame of `base` other than the global one is not the one that changes.
    have hne : id ≠ place := by omega
    rw [← h.kept place hpos hlt]
    simp [Environment.modify, Array.getElem?_modify, hne]

/-- A frame that is opened leaves those of `base` alone. -/
theorem opened (h : base.Above env d) (parent : Nat) : base.Above (env.opened parent) (d + 1) where
  pos := h.pos
  tidy := h.tidy.opened parent
  size := by rw [Environment.opened, Array.size_push, h.size, Nat.add_assoc]
  kept id hpos hlt := by
    -- The new frame takes a place that is beyond those of `base`.
    have hne : id ≠ env.frames.size := by
      rw [h.size]
      omega
    rw [Environment.opened, Array.getElem?_push, if_neg hne, h.kept id hpos hlt]

/-- What is further out than the innermost frame stays when that ends. -/
theorem getElem?_endScope (h : base.Above env (d + 1)) {id : Nat}
    (hid : id < base.frames.size + d) : env.endScope.frames[id]? = env.frames[id]? :=
  Environment.getElem?_endScope (h.current_eq ▸ hid)

/-- The innermost frame ends, which was opened since. -/
theorem endScope (h : base.Above env (d + 1)) : base.Above env.endScope d where
  pos := h.pos
  tidy := h.tidy.endScope
  size := by
    -- One frame of those that were opened is gone, so there was more than one.
    have hpos := h.pos
    have hsize : env.frames.size = base.frames.size + d + 1 := h.size
    rw [h.tidy.size_endScope (by omega), hsize, Nat.add_sub_cancel]
  kept id hpos hlt := by
    rw [h.getElem?_endScope (Nat.lt_add_right d hlt), h.kept id hpos hlt]

end Above

/-! ### Alike environments -/

/-- **Two environments that were reached from `base` and `base'`** by opening `d` frames: the global
frames and those that were opened are alike. -/
structure Alike (names names' : Interner) (base base' env env' : Environment α) (d : Nat) :
    Prop where
  above : base.Above env d
  above' : base'.Above env' d
  frame : ∀ id id', Counterparts base.frames.size base'.frames.size d id id' →
    ∃ f f', env.frames[id]? = some f ∧ env'.frames[id']? = some f' ∧ f.Alike names names' f' ∧
      ParentsAlike base.frames.size base'.frames.size d id id' f.parent f'.parent

namespace Alike

variable {base base' env env' : Environment α} {d : Nat} {x x' : Name}

/-- The innermost frames are counterparts once a frame was opened. They are as well where the global
frames are the only ones. -/
theorem current (h : Alike names names' base base' env env' d)
    (hd : 0 < d ∨ base.frames.size = 1 ∧ base'.frames.size = 1) :
    Counterparts base.frames.size base'.frames.size d env.current env'.current := by
  have hpos := h.above.pos
  have hpos' := h.above'.pos
  rw [h.above.current_eq, h.above'.current_eq]
  -- Without an opened frame the innermost one is the global one, by what is assumed.
  by_cases hzero : d = 0
  · exact .inl ⟨by omega, by omega⟩
  · exact .inr ⟨d - 1, by omega, by omega, by omega⟩

/-! ### What names mean -/

/-- **The walk up the parents** takes the same steps in both. -/
theorem search (h : Alike names names' base base' env env' d) (hx : names.SameText names' x x')
    {id id' bound bound' : Nat}
    (hid : Counterparts base.frames.size base'.frames.size d id id') (hbound : id < bound)
    (hbound' : id' < bound') :
    (env.search x id bound = .ok none ∧ env'.search x' id' bound' = .ok none) ∨
      ∃ j j', Counterparts base.frames.size base'.frames.size d j j' ∧
        env.search x id bound = .ok (some j) ∧ env'.search x' id' bound' = .ok (some j') := by
  -- The parents are at smaller places, so smaller bounds are enough for the rest.
  induction bound generalizing id id' bound' with
  | zero => exact absurd hbound (Nat.not_lt_zero _)
  | succ bound ih =>
    obtain ⟨bound', rfl⟩ := Nat.exists_eq_succ_of_ne_zero (Nat.ne_of_gt (Nat.zero_lt_of_lt hbound'))
    obtain ⟨f, f', hget, hget', halike, hparents⟩ := h.frame id id' hid
    have hframe : env.frame id = .ok f := by rw [Environment.frame, hget]
    have hframe' : env'.frame id' = .ok f' := by rw [Environment.frame, hget']
    simp only [Environment.search, hframe, hframe', halike.declares_eq hx]
    -- If the frame declares the variable, so does its counterpart, and both walks stop here. Otherwise
    -- both go on with the parents, which are counterparts again.
    by_cases hdeclares : f.declares x = true
    · rw [if_pos hdeclares, if_pos hdeclares]
      exact .inr ⟨id, id', hid, rfl, rfl⟩
    · rw [if_neg hdeclares, if_neg hdeclares]
      generalize f.parent = parent, f'.parent = parent' at hparents
      cases hparents with
      | global => exact .inl ⟨rfl, rfl⟩
      | inside hp hlt hlt' =>
        exact ih hp (Nat.lt_of_lt_of_le hlt (Nat.le_of_lt_succ hbound))
          (Nat.lt_of_lt_of_le hlt' (Nat.le_of_lt_succ hbound'))

/-- **A variable is found in counterparts**, or in neither environment. -/
theorem find (h : Alike names names' base base' env env' d)
    (hcurrent : Counterparts base.frames.size base'.frames.size d env.current env'.current)
    (hx : names.SameText names' x x') :
    (env.find x = .ok none ∧ env'.find x' = .ok none) ∨
      ∃ j j', Counterparts base.frames.size base'.frames.size d j j' ∧
        env.find x = .ok (some j) ∧ env'.find x' = .ok (some j') := by
  -- The frames that are stored are enough steps for both walks.
  have hbound : env.current < env.frames.size := by
    rw [h.above.size]
    exact hcurrent.lt h.above.pos
  have hbound' : env'.current < env'.frames.size := by
    rw [h.above'.size]
    exact hcurrent.lt' h.above'.pos
  exact h.search hx hcurrent hbound hbound'

/-- Whether a variable is declared is the same in both. -/
theorem isDeclared (h : Alike names names' base base' env env' d)
    (hcurrent : Counterparts base.frames.size base'.frames.size d env.current env'.current)
    (hx : names.SameText names' x x') :
    ∃ b, env.isDeclared x = .ok b ∧ env'.isDeclared x' = .ok b := by
  rw [Environment.isDeclared, Environment.isDeclared]
  obtain ⟨hfind, hfind'⟩ | ⟨j, j', -, hfind, hfind'⟩ := h.find hcurrent hx
  · rw [hfind, hfind']
    exact ⟨false, rfl, rfl⟩
  · rw [hfind, hfind']
    exact ⟨true, rfl, rfl⟩

end Alike

end Environment

/-- The same complaint about variables of the same text. -/
inductive ScopeError.Alike (names names' : Interner) : ScopeError → ScopeError → Prop
  | undeclared {x x' : Name} : names.SameText names' x x' →
      Alike names names' (.undeclared x) (.undeclared x')
  | alreadyDeclared {x x' : Name} : names.SameText names' x x' →
      Alike names names' (.alreadyDeclared x) (.alreadyDeclared x')
  | unassigned {x x' : Name} : names.SameText names' x x' →
      Alike names names' (.unassigned x) (.unassigned x')

/-- **Two operations on scopes that come to the same**, and to no fault. -/
inductive ScopeOutcome.Alike {β : Type} (names names' : Interner) :
    ScopeOutcome β → ScopeOutcome β → Prop
  | ok (b : β) : Alike names names' (.ok b) (.ok b)
  | error {e e' : ScopeError} : e.Alike names names' e' →
      Alike names names' (.error (.error e)) (.error (.error e'))

namespace Environment.Alike

variable {base base' env env' : Environment α} {d : Nat} {x x' : Name}

/-- **A variable has the same value in both.** -/
theorem lookup (h : Alike names names' base base' env env' d)
    (hcurrent : Counterparts base.frames.size base'.frames.size d env.current env'.current)
    (hx : names.SameText names' x x') :
    ScopeOutcome.Alike names names' (env.lookup x) (env'.lookup x') := by
  rw [Environment.lookup, Environment.lookup]
  obtain ⟨hfind, hfind'⟩ | ⟨j, j', hj, hfind, hfind'⟩ := h.find hcurrent hx
  · rw [hfind, hfind']
    exact .error (.undeclared hx)
  · -- What is found is a counterpart of what is found, and alike to it.
    obtain ⟨f, f', hget, hget', halike, -⟩ := h.frame j j' hj
    have hframe : env.frame j = .ok f := by rw [Environment.frame, hget]
    have hframe' : env'.frame j' = .ok f' := by rw [Environment.frame, hget']
    simp only [hfind, hfind', hframe, hframe', halike.binding x x' hx]
    rcases f.binding? x with _ | _ | v
    · exact .error (.unassigned hx)
    · exact .error (.unassigned hx)
    · exact .ok v

/-! ### What an operation does -/

/-- **Changing counterparts** in the same way. -/
theorem modify (h : Alike names names' base base' env env' d) {id id' : Nat}
    (hid : Counterparts base.frames.size base'.frames.size d id id') {g g' : Frame α → Frame α}
    (hparent : ∀ f, (g f).parent = f.parent) (hparent' : ∀ f, (g' f).parent = f.parent)
    (hg : ∀ f f', f.Alike names names' f' → (g f).Alike names names' (g' f')) :
    Alike names names' base base' (env.modify id g) (env'.modify id' g') d where
  above := h.above.modify hid.global_or_ge g
  above' := h.above'.modify hid.global_or_ge' g'
  frame j j' hj := by
    obtain ⟨f, f', hget, hget', halike, hparents⟩ := h.frame j j' hj
    -- The frame that changes in the one is the counterpart of the one that changes in the other.
    have hiff := Counterparts.eq_iff h.above.pos h.above'.pos hid hj
    -- The frame is the one that changes, and then so is its counterpart, or neither is.
    by_cases hsame : id = j
    · refine ⟨g f, g' f', ?_, ?_, hg f f' halike, ?_⟩
      · simp [Environment.modify, Array.getElem?_modify, hsame, hget]
      · simp [Environment.modify, Array.getElem?_modify, hiff.mp hsame, hget']
      · rw [hparent, hparent']
        exact hparents
    · refine ⟨f, f', ?_, ?_, halike, hparents⟩
      · simp [Environment.modify, Array.getElem?_modify, hsame, hget]
      · simp [Environment.modify, Array.getElem?_modify, mt hiff.mpr hsame, hget']

/-- **A new value** is stored in counterparts, or the variable is declared in neither. -/
theorem store (h : Alike names names' base base' env env' d)
    (hcurrent : Counterparts base.frames.size base'.frames.size d env.current env'.current)
    (hx : names.SameText names' x x') (v : α) :
    ScopeOutcome.Alike names names' (env.store x v).1 (env'.store x' v).1 ∧
      Alike names names' base base' (env.store x v).2 (env'.store x' v).2 d := by
  rw [Environment.store, Environment.store]
  -- What is found are counterparts, which stay alike when they are given the same value.
  obtain ⟨hfind, hfind'⟩ | ⟨j, j', hj, hfind, hfind'⟩ := h.find hcurrent hx
  · rw [hfind, hfind']
    exact ⟨.error (.undeclared hx), h⟩
  · rw [hfind, hfind']
    exact ⟨.ok (), h.modify hj (fun _ => rfl) (fun _ => rfl) fun _ _ hf => hf.assign hx v⟩

/-- **A new variable** is declared in both innermost frames, or was in both. -/
theorem declare (h : Alike names names' base base' env env' d)
    (hcurrent : Counterparts base.frames.size base'.frames.size d env.current env'.current)
    (hx : names.SameText names' x x') :
    ScopeOutcome.Alike names names' (env.declare x).1 (env'.declare x').1 ∧
      Alike names names' base base' (env.declare x).2 (env'.declare x').2 d := by
  -- Only the innermost frame is asked whether it declares the variable.
  obtain ⟨f, f', hget, hget', halike, -⟩ := h.frame _ _ hcurrent
  have hlocal : env.isLocal x = .ok (f.declares x) := by
    rw [Environment.isLocal, Environment.frame, hget, Except.map]
  have hlocal' : env'.isLocal x' = .ok (f.declares x) := by
    rw [Environment.isLocal, Environment.frame, hget', Except.map, halike.declares_eq hx]
  rw [Environment.declare, Environment.declare, hlocal, hlocal']
  cases f.declares x with
  | true => exact ⟨.error (.alreadyDeclared hx), h⟩
  | false =>
    exact ⟨.ok (), h.modify hcurrent (fun _ => rfl) (fun _ => rfl) fun _ _ hf => hf.declare hx⟩

/-- **New frames** inside counterparts are counterparts. -/
theorem opened (h : Alike names names' base base' env env' d) {p p' : Nat}
    (hp : Counterparts base.frames.size base'.frames.size d p p') :
    Alike names names' base base' (env.opened p) (env'.opened p') (d + 1) where
  above := h.above.opened p
  above' := h.above'.opened p'
  frame id id' hid := by
    have hpos := h.above.pos
    have hpos' := h.above'.pos
    simp only [Environment.opened, Array.getElem?_push, h.above.size, h.above'.size]
    by_cases hold : Counterparts base.frames.size base'.frames.size d id id'
    · obtain ⟨f, f', hget, hget', halike, hparents⟩ := h.frame id id' hold
      rw [if_neg (Nat.ne_of_lt (hold.lt hpos)), if_neg (Nat.ne_of_lt (hold.lt' hpos'))]
      exact ⟨f, f', hget, hget', halike, hparents.succ⟩
    · -- What was no counterpart before is what was opened.
      obtain hglobal | ⟨i, hi, rfl, rfl⟩ := hid
      · exact absurd (.inl hglobal) hold
      · obtain rfl : i = d := by
          by_contra hne
          exact hold (.inr ⟨i, by omega, rfl, rfl⟩)
        rw [if_pos rfl, if_pos rfl]
        exact ⟨_, _, rfl, rfl, Frame.alike_nil _ _, .inside hp.succ (hp.lt hpos) (hp.lt' hpos')⟩

/-- **The end of the innermost frames**, which were opened since. -/
theorem endScope (h : Alike names names' base base' env env' (d + 1)) :
    Alike names names' base base' env.endScope env'.endScope d where
  above := h.above.endScope
  above' := h.above'.endScope
  frame id id' hid := by
    -- A frame that stays is further out than those that end, in both environments.
    obtain ⟨f, f', hget, hget', halike, hparents⟩ := h.frame id id' hid.succ
    rw [h.above.getElem?_endScope (hid.lt h.above.pos),
      h.above'.getElem?_endScope (hid.lt' h.above'.pos)]
    exact ⟨f, f', hget, hget', halike, hparents.of_succ hid⟩

end Environment.Alike

end Silly
