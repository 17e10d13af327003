import Silly.Proofs.Environment.Frames

/-!
# A frame in which nothing is declared

A block in which nothing is declared has a frame all the same. Here two environments are compared that
were reached by opening the same frames, except that in the second some frames stand in between in which
nothing is declared (`Environment.Nests`). Which of the frames those are is said by a list that has one
entry for each frame that was opened since the global one, the innermost first.

A frame in between moves all later ones to other places, and the chain of parents may lead through it.
It declares nothing, so a walk up the parents does not stop there, and goes on with the frame below it.
That is where the same walk in the first environment stands. So a variable is found in the one just when
it is found in the other, in frames with the same bindings (`Nests.find`), and no operation on scopes
makes a difference between the two. Only a declaration asks for the innermost frame itself. It is carried
out where that frame is in both.
-/

namespace Silly

variable {α : Type}

/-- Where a frame is that was opened: in both environments, or in the second only. -/
inductive Opened
  | both
  | between

/-- How many of the frames are in both. -/
def Opened.shared : List Opened → Nat
  | [] => 0
  | .both :: g => shared g + 1
  | .between :: g => shared g

/-! ### Frames -/

/-- **Two stacks of frames**, of which the second has some in between that declare nothing. The parent of
a frame is the one opened before it, or the global one for the body of a subroutine; the parent of a
frame in between is always the one opened before it. -/
inductive FramesNest : List Opened → Array (Frame α) → Array (Frame α) → Prop
  | global (bs : List (Name × Option α)) : FramesNest [] #[⟨bs, none⟩] #[⟨bs, none⟩]
  | both {g : List Opened} {fs fs' : Array (Frame α)} {p p' : FrameId} (bs : List (Name × Option α)) :
      FramesNest g fs fs' →
      (p = FrameId.global ∧ p' = FrameId.global) ∨ (p = fs.size - 1 ∧ p' = fs'.size - 1) →
      FramesNest (.both :: g) (fs.push ⟨bs, some p⟩) (fs'.push ⟨bs, some p'⟩)
  | between {g : List Opened} {fs fs' : Array (Frame α)} : FramesNest g fs fs' →
      FramesNest (.between :: g) fs (fs'.push ⟨[], some (fs'.size - 1)⟩)

/-- **The places of one frame** in two such stacks. -/
inductive Paired : List Opened → FrameId → FrameId → Prop
  | global : Paired [] FrameId.global FrameId.global
  | innermost (g : List Opened) : Paired (.both :: g) (Opened.shared g + 1) (g.length + 1)
  | further (o : Opened) {g : List Opened} {id id' : FrameId} : Paired g id id' → Paired (o :: g) id id'

/-- The first of the frames are `fs`. -/
def Environment.BeginsWith (fs : Array (Frame α)) (env : Environment α) : Prop :=
  ∀ id < fs.size, env.frames[id]? = fs[id]?

/-- The last of the first frames is stored behind the others, and without it the others come first
still. -/
theorem Environment.BeginsWith.of_push {fs : Array (Frame α)} {f : Frame α} {env : Environment α}
    (h : env.BeginsWith (fs.push f)) : env.frame fs.size = .ok f ∧ env.BeginsWith fs := by
  rw [BeginsWith, Array.size_push] at h
  refine ⟨?_, fun id hid => ?_⟩
  · rw [frame, h fs.size (Nat.lt_succ_self _), Array.getElem?_push_size]
  · rw [h id (Nat.lt_succ_of_lt hid), Array.getElem?_push, if_neg (Nat.ne_of_lt hid)]

section Arrays

variable {fs : Array (Frame α)} {f : Frame α} {φ : Frame α → Frame α} {id : Nat}

/-- A frame that is not the last one may be changed before the last one is put on. -/
theorem modify_push_of_lt (hid : id < fs.size) :
    (fs.push f).modify id φ = (fs.modify id φ).push f := by
  refine Array.ext_getElem? fun i => ?_
  rw [Array.getElem?_modify, Array.getElem?_push, Array.getElem?_push, Array.getElem?_modify,
    Array.size_modify]
  -- Either the place asked for is the last one, which is not the one that changes, or it is before it.
  by_cases hi : i = fs.size
  · have hne : ¬ id = i := by omega
    simp only [if_pos hi, if_neg hne]
  · simp only [if_neg hi]

/-- The last frame is changed where it is put on. -/
theorem modify_push_size : (fs.push f).modify fs.size φ = fs.push (φ f) := by
  refine Array.ext_getElem? fun i => ?_
  rw [Array.getElem?_modify, Array.getElem?_push, Array.getElem?_push]
  by_cases hi : i = fs.size
  · rw [if_pos hi.symm, if_pos hi, if_pos hi, Option.map_some]
  · rw [if_neg (Ne.symm hi), if_neg hi, if_neg hi]

end Arrays

namespace FramesNest

variable {g : List Opened} {fs fs' : Array (Frame α)}

theorem size (h : FramesNest g fs fs') : fs.size = Opened.shared g + 1 := by
  induction h with
  | global => rfl
  | both bs _ _ ih => rw [Array.size_push, ih, Opened.shared]
  | between _ ih => exact ih

theorem size' (h : FramesNest g fs fs') : fs'.size = g.length + 1 := by
  induction h with
  | global => rfl
  | both bs _ _ ih => rw [Array.size_push, ih, List.length_cons]
  | between _ ih => rw [Array.size_push, ih, List.length_cons]

theorem pos (h : FramesNest g fs fs') : 0 < fs.size ∧ 0 < fs'.size := by
  rw [h.size, h.size']
  exact ⟨Nat.succ_pos _, Nat.succ_pos _⟩

/-- The places are those of frames. -/
theorem lt_size (h : FramesNest g fs fs') {id id' : FrameId} (hid : Paired g id id') :
    id < fs.size ∧ id' < fs'.size := by
  rw [h.size, h.size']
  clear h
  -- The frame at the end of the list is stored last, and the others have their places below it.
  induction hid with
  | global => exact ⟨Nat.one_pos, Nat.one_pos⟩
  | innermost g => exact ⟨Nat.lt_succ_self _, Nat.lt_succ_self _⟩
  | further o _ ih =>
    obtain ⟨hlt, hlt'⟩ := ih
    refine ⟨?_, Nat.lt_succ_of_lt hlt'⟩
    cases o with
    | both => exact Nat.lt_succ_of_lt hlt
    | between => exact hlt

/-- **A frame has the same bindings** in both. -/
theorem getElem? (h : FramesNest g fs fs') {id id' : FrameId} (hid : Paired g id id') :
    ∃ bs parent parent', fs[id]? = some ⟨bs, parent⟩ ∧ fs'[id']? = some ⟨bs, parent'⟩ := by
  -- By induction on the frames. The innermost one is at hand, and the others are as they were without
  -- it.
  induction h with
  | global bs =>
    cases hid
    exact ⟨bs, none, none, rfl, rfl⟩
  | @both g fs fs' p p' bs h _ ih =>
    cases hid with
    | innermost =>
      refine ⟨bs, some p, some p', ?_, ?_⟩
      · rw [← h.size, Array.getElem?_push_size]
      · rw [← h.size', Array.getElem?_push_size]
    | further _ hid =>
      obtain ⟨hlt, hlt'⟩ := h.lt_size hid
      obtain ⟨bs', q, q', hget, hget'⟩ := ih hid
      refine ⟨bs', q, q', ?_, ?_⟩
      · rw [Array.getElem?_push, if_neg (Nat.ne_of_lt hlt), hget]
      · rw [Array.getElem?_push, if_neg (Nat.ne_of_lt hlt'), hget']
  -- The frame in between is in the second stack only, so it is none of the pair.
  | @between g fs fs' h ih =>
    cases hid with
    | further _ hid =>
      obtain ⟨-, hlt'⟩ := h.lt_size hid
      obtain ⟨bs', q, q', hget, hget'⟩ := ih hid
      refine ⟨bs', q, q', hget, ?_⟩
      rw [Array.getElem?_push, if_neg (Nat.ne_of_lt hlt'), hget']

/-- The global frames are outermost. -/
theorem global_frame (h : FramesNest g fs fs') :
    Paired g FrameId.global FrameId.global ∧ ∃ bs, fs[FrameId.global]? = some ⟨bs, none⟩ ∧
      fs'[FrameId.global]? = some ⟨bs, none⟩ := by
  -- By induction on the frames. Those that are put on leave the first place alone.
  induction h with
  | global bs => exact ⟨.global, bs, rfl, rfl⟩
  | @both g fs fs' p p' bs h _ ih =>
    obtain ⟨hid, bs', hget, hget'⟩ := ih
    obtain ⟨hlt, hlt'⟩ := h.lt_size hid
    refine ⟨.further _ hid, bs', ?_, ?_⟩
    · rw [Array.getElem?_push, if_neg (Nat.ne_of_lt hlt), hget]
    · rw [Array.getElem?_push, if_neg (Nat.ne_of_lt hlt'), hget']
  | @between g fs fs' h ih =>
    obtain ⟨hid, bs', hget, hget'⟩ := ih
    obtain ⟨-, hlt'⟩ := h.lt_size hid
    refine ⟨.further _ hid, bs', hget, ?_⟩
    rw [Array.getElem?_push, if_neg (Nat.ne_of_lt hlt'), hget']

/-! ### What names mean -/

variable {env env' : Environment α} {x : Name}

/-- The walk up the parents ends with the global frames. -/
theorem search_global (h : FramesNest g fs fs') (hfs : env.BeginsWith fs) (hfs' : env'.BeginsWith fs')
    (bound bound' : Nat) :
    (env.search x FrameId.global (bound + 1) = .ok none ∧
        env'.search x FrameId.global (bound' + 1) = .ok none) ∨
      env.search x FrameId.global (bound + 1) = .ok (some FrameId.global) ∧
        env'.search x FrameId.global (bound' + 1) = .ok (some FrameId.global) := by
  obtain ⟨hid, bs, hget, hget'⟩ := h.global_frame
  obtain ⟨hlt, hlt'⟩ := h.lt_size hid
  have hframe : env.frame FrameId.global = .ok ⟨bs, none⟩ := by
    rw [Environment.frame, hfs _ hlt, hget]
  have hframe' : env'.frame FrameId.global = .ok ⟨bs, none⟩ := by
    rw [Environment.frame, hfs' _ hlt', hget']
  rw [Environment.search, Environment.search, hframe, hframe']
  -- If the global frame does not declare the variable, it has no parent to go on with.
  by_cases hx : Frame.declares ⟨bs, none⟩ x = true
  · exact .inr ⟨if_pos hx, if_pos hx⟩
  · exact .inl ⟨if_neg hx, if_neg hx⟩

/-- **The walk up the parents** from the innermost frames comes to the same frame, or to none. -/
theorem search (h : FramesNest g fs fs') (hfs : env.BeginsWith fs) (hfs' : env'.BeginsWith fs')
    {bound bound' : Nat} (hbound : fs.size ≤ bound) (hbound' : fs'.size ≤ bound') :
    (env.search x (fs.size - 1) bound = .ok none ∧ env'.search x (fs'.size - 1) bound' = .ok none) ∨
      ∃ id id', Paired g id id' ∧ env.search x (fs.size - 1) bound = .ok (some id) ∧
        env'.search x (fs'.size - 1) bound' = .ok (some id') := by
  -- By induction on the frames, from the innermost one outwards. The bounds only have to be large
  -- enough.
  induction h generalizing bound bound' with
  | global bs =>
    obtain ⟨bound, rfl⟩ := Nat.exists_eq_add_of_le' hbound
    obtain ⟨bound', rfl⟩ := Nat.exists_eq_add_of_le' hbound'
    obtain hnone | hfound := (FramesNest.global bs).search_global hfs hfs' bound bound'
    · exact .inl hnone
    · exact .inr ⟨_, _, .global, hfound⟩
  | @both g fs fs' p p' bs h hparents ih =>
    obtain ⟨hframe, hrest⟩ := hfs.of_push
    obtain ⟨hframe', hrest'⟩ := hfs'.of_push
    obtain ⟨hpos, hpos'⟩ := h.pos
    rw [Array.size_push] at hbound hbound'
    obtain ⟨bound, rfl⟩ := Nat.exists_eq_succ_of_ne_zero (Nat.ne_zero_of_lt hbound)
    obtain ⟨bound', rfl⟩ := Nat.exists_eq_succ_of_ne_zero (Nat.ne_zero_of_lt hbound')
    have hle : fs.size ≤ bound := Nat.le_of_succ_le_succ hbound
    have hle' : fs'.size ≤ bound' := Nat.le_of_succ_le_succ hbound'
    rw [Array.size_push, Array.size_push, Nat.add_sub_cancel, Nat.add_sub_cancel]
    by_cases hx : Frame.declares ⟨bs, none⟩ x = true
    · -- The variable is declared in this frame, whatever its parent is.
      rw [Environment.search_here hframe hx, Environment.search_here hframe' hx, h.size, h.size']
      exact .inr ⟨_, _, .innermost g, rfl, rfl⟩
    · rw [Environment.search_up hframe hx rfl, Environment.search_up hframe' hx rfl]
      -- The walk goes on from the global frame, if this is the body of a subroutine, or from the frame
      -- below.
      obtain ⟨rfl, rfl⟩ | ⟨rfl, rfl⟩ := hparents
      · obtain ⟨bound, rfl⟩ := Nat.exists_eq_succ_of_ne_zero (Nat.ne_zero_of_lt (Nat.lt_of_lt_of_le hpos hle))
        obtain ⟨bound', rfl⟩ :=
          Nat.exists_eq_succ_of_ne_zero (Nat.ne_zero_of_lt (Nat.lt_of_lt_of_le hpos' hle'))
        obtain hnone | hfound := h.search_global hrest hrest' bound bound'
        · exact .inl hnone
        · exact .inr ⟨_, _, .further _ h.global_frame.1, hfound⟩
      · obtain hnone | ⟨id, id', hid, hfound⟩ := ih hrest hrest' hle hle'
        · exact .inl hnone
        · exact .inr ⟨id, id', .further _ hid, hfound⟩
  | @between g fs fs' h ih =>
    -- The frame in between is asked first, and then the walk goes on below it.
    obtain ⟨hframe', hrest'⟩ := hfs'.of_push
    rw [Array.size_push] at hbound'
    obtain ⟨bound', rfl⟩ := Nat.exists_eq_succ_of_ne_zero (Nat.ne_zero_of_lt hbound')
    rw [Array.size_push, Nat.add_sub_cancel, Environment.search_up hframe' Bool.false_ne_true rfl]
    obtain hnone | ⟨id, id', hid, hfound⟩ := ih hfs hrest' hbound (Nat.le_of_succ_le_succ hbound')
    · exact .inl hnone
    · exact .inr ⟨id, id', .further _ hid, hfound⟩

/-! ### Changes -/

/-- **A change of the bindings** of one frame, in both. -/
theorem modify (h : FramesNest g fs fs') {id id' : FrameId} (hid : Paired g id id')
    {φ : Frame α → Frame α} (hφ : ∀ bs, ∃ bs', ∀ parent, φ ⟨bs, parent⟩ = ⟨bs', parent⟩) :
    FramesNest g (fs.modify id φ) (fs'.modify id' φ) := by
  -- By induction on the frames, down to the one that changes.
  induction h with
  | global bs =>
    obtain ⟨bs', hbs'⟩ := hφ bs
    cases hid
    have hmodify : (#[⟨bs, none⟩] : Array (Frame α)).modify FrameId.global φ = #[⟨bs', none⟩] := by
      rw [← hbs' none]
      rfl
    rw [hmodify]
    exact .global bs'
  | @both g fs fs' p p' bs h hparents ih =>
    cases hid with
    | innermost =>
      obtain ⟨bs', hbs'⟩ := hφ bs
      -- It is the innermost one, and so the last in both stacks.
      rw [← h.size, ← h.size', modify_push_size, modify_push_size, hbs', hbs']
      exact .both bs' h hparents
    | further _ hid =>
      -- It is further out, so the innermost frame is put on again after the change.
      obtain ⟨hlt, hlt'⟩ := h.lt_size hid
      rw [modify_push_of_lt hlt, modify_push_of_lt hlt']
      refine .both bs (ih hid) ?_
      rw [Array.size_modify, Array.size_modify]
      exact hparents
  | @between g fs fs' h ih =>
    cases hid with
    | further _ hid =>
      obtain ⟨-, hlt'⟩ := h.lt_size hid
      have hsize : (fs'.modify id' φ).size = fs'.size := Array.size_modify
      rw [modify_push_of_lt hlt', ← hsize]
      exact .between (ih hid)

end FramesNest

/-! ### Environments -/

/-- **Two environments** of which the second has frames in between that declare nothing. -/
structure Environment.Nests (g : List Opened) (env env' : Environment α) : Prop where
  tidy : env.Tidy
  tidy' : env'.Tidy
  frames : FramesNest g env.frames env'.frames

namespace Environment.Nests

variable {g : List Opened} {env env' : Environment α} {x : Name}

theorem initial : Nests [] (Environment.initial : Environment α) .initial :=
  ⟨tidy_initial, tidy_initial, .global []⟩

/-- Where nothing is opened, there is nothing in between. -/
theorem eq (h : Nests [] env env') : env' = env := by
  -- Where no frame was opened, each stack is the global frame alone.
  have hframes : env'.frames = env.frames := by
    have hframes := h.frames
    generalize env.frames = fs, env'.frames = fs' at hframes
    cases hframes
    rfl
  have hlive : env'.live = env.live := by rw [h.tidy.live, h.tidy'.live, hframes]
  calc env' = ⟨env'.frames, env'.live⟩ := rfl
    _ = ⟨env.frames, env.live⟩ := by rw [hframes, hlive]

/-- **A variable is found in the same frame**, or in neither environment. -/
theorem find (h : Nests g env env') (x : Name) :
    (env.find x = .ok none ∧ env'.find x = .ok none) ∨
      ∃ id id', Paired g id id' ∧ env.find x = .ok (some id) ∧ env'.find x = .ok (some id') := by
  rw [Environment.find, Environment.find, h.tidy.current_eq, h.tidy'.current_eq]
  exact h.frames.search (fun _ _ => rfl) (fun _ _ => rfl) (Nat.le_refl _) (Nat.le_refl _)

/-- **Whether a variable is declared** is the same in both. -/
theorem isDeclared (h : Nests g env env') (x : Name) : env'.isDeclared x = env.isDeclared x := by
  rw [Environment.isDeclared, Environment.isDeclared]
  obtain ⟨hfind, hfind'⟩ | ⟨id, id', -, hfind, hfind'⟩ := h.find x
  · rw [hfind, hfind']
  · rw [hfind, hfind']
    rfl

/-- **A variable has the same value in both.** -/
theorem lookup (h : Nests g env env') (x : Name) : env'.lookup x = env.lookup x := by
  rw [Environment.lookup, Environment.lookup]
  obtain ⟨hfind, hfind'⟩ | ⟨id, id', hid, hfind, hfind'⟩ := h.find x
  · rw [hfind, hfind']
  · obtain ⟨bs, parent, parent', hget, hget'⟩ := h.frames.getElem? hid
    have hframe : env.frame id = .ok ⟨bs, parent⟩ := by rw [Environment.frame, hget]
    have hframe' : env'.frame id' = .ok ⟨bs, parent'⟩ := by rw [Environment.frame, hget']
    simp only [hfind, hfind', hframe, hframe']
    rfl

theorem modify (h : Nests g env env') {id id' : FrameId} (hid : Paired g id id')
    {φ : Frame α → Frame α} (hφ : ∀ bs, ∃ bs', ∀ parent, φ ⟨bs, parent⟩ = ⟨bs', parent⟩) :
    Nests g (env.modify id φ) (env'.modify id' φ) :=
  ⟨h.tidy.modify id φ, h.tidy'.modify id' φ, h.frames.modify hid hφ⟩

/-- **A new value** is stored in the same frame, or in neither. -/
theorem store (h : Nests g env env') (x : Name) (v : α) :
    (env'.store x v).1 = (env.store x v).1 ∧ Nests g (env.store x v).2 (env'.store x v).2 := by
  rw [Environment.store, Environment.store]
  obtain ⟨hfind, hfind'⟩ | ⟨id, id', hid, hfind, hfind'⟩ := h.find x
  · rw [hfind, hfind']
    exact ⟨rfl, h⟩
  · rw [hfind, hfind']
    exact ⟨rfl, h.modify hid fun bs => ⟨_, fun _ => rfl⟩⟩

/-- **A new variable** is declared in the same frame, where the innermost frame is in both. -/
theorem declare (h : Nests g env env') (hg : g.head? ≠ some .between) (x : Name) :
    (env'.declare x).1 = (env.declare x).1 ∧ Nests g (env.declare x).2 (env'.declare x).2 := by
  -- The innermost frame is in both, as it is not one in between.
  have hcurrent : Paired g env.current env'.current := by
    rw [h.tidy.current_eq, h.tidy'.current_eq, h.frames.size, h.frames.size']
    match g, hg with
    | [], _ => exact .global
    | .both :: g, _ => exact .innermost g
  obtain ⟨bs, parent, parent', hget, hget'⟩ := h.frames.getElem? hcurrent
  have hlocal : env.isLocal x = .ok (Frame.declares ⟨bs, parent⟩ x) := by
    rw [Environment.isLocal, Environment.frame, hget, Except.map]
  have hlocal' : env'.isLocal x = .ok (Frame.declares ⟨bs, parent⟩ x) := by
    rw [Environment.isLocal, Environment.frame, hget', Except.map]
    rfl
  rw [Environment.declare, Environment.declare, hlocal, hlocal']
  cases Frame.declares ⟨bs, parent⟩ x with
  | true => exact ⟨rfl, h⟩
  | false => exact ⟨rfl, h.modify hcurrent fun bs => ⟨_, fun _ => rfl⟩⟩

/-! ### Opening and closing -/

/-- **A block begins** in both. -/
theorem beginScope (h : Nests g env env') : Nests (.both :: g) env.beginScope env'.beginScope := by
  -- The parent of the new frame is the innermost one, which is last in both.
  refine ⟨h.tidy.opened env.current, h.tidy'.opened env'.current, .both [] h.frames (.inr ?_)⟩
  exact ⟨h.tidy.current_eq, h.tidy'.current_eq⟩

/-- **A block begins in the second only**, in which nothing will be declared. -/
theorem beginBetween (h : Nests g env env') : Nests (.between :: g) env env'.beginScope := by
  refine ⟨h.tidy, h.tidy'.opened env'.current, ?_⟩
  have hframes := FramesNest.between h.frames
  rwa [← h.tidy'.current_eq] at hframes

/-- **The body of a subroutine begins** in both, inside the global frame. -/
theorem beginScopeIn (h : Nests g env env') :
    ∃ env₁ env₁', env.beginScopeIn FrameId.global = (.ok (), env₁) ∧
      env'.beginScopeIn FrameId.global = (.ok (), env₁') ∧ Nests (.both :: g) env₁ env₁' := by
  refine ⟨_, _, h.tidy.beginScopeIn_global, h.tidy'.beginScopeIn_global, h.tidy.opened _,
    h.tidy'.opened _, ?_⟩
  exact .both [] h.frames (.inl ⟨rfl, rfl⟩)

/-- **A block ends** in both. -/
theorem endScope (h : Nests (.both :: g) env env') : Nests g env.endScope env'.endScope := by
  refine ⟨h.tidy.endScope, h.tidy'.endScope, ?_⟩
  obtain ⟨tidy, tidy', hframes⟩ := h
  -- The innermost frame was put on last, so what is left without it are the frames below.
  generalize hfs : env.frames = fs, hfs' : env'.frames = fs' at hframes
  cases hframes with
  | both bs hrest =>
    rw [tidy.endScope_frames hfs hrest.pos.1, tidy'.endScope_frames hfs' hrest.pos.2]
    exact hrest

/-- **A block ends that is in the second only.** -/
theorem endBetween (h : Nests (.between :: g) env env') : Nests g env env'.endScope := by
  refine ⟨h.tidy, h.tidy'.endScope, ?_⟩
  obtain ⟨tidy, tidy', hframes⟩ := h
  -- Here it was put on in the second stack only, and the first one keeps all its frames.
  generalize hfs : env.frames = fs, hfs' : env'.frames = fs' at hframes
  cases hframes with
  | between hrest =>
    rw [tidy'.endScope_frames hfs' hrest.pos.2]
    exact hrest

end Environment.Nests

end Silly
