import Silly.Proofs.Environment.Frames

/-!
# Frames that follow the blocks

Where no subroutine is called, each frame stands inside the one that was opened before it. So the
frames are those of the blocks that a statement stands in, and what they declare can be read off the
program: a stack of lists of names, one list for each block, the innermost first. An environment that
*models* such a stack (`Environment.Models`) declares in each frame just the names of its list, and all
of them have values.

Then a name of the stack is found, whichever list it is in, and a name that the innermost list does not
hold can be declared. Between the declaration and its first value the new variable has none, but no
other variable is looked up in another frame for it (`Environment.Models.declare`).
-/

namespace Silly

variable {α : Type}

/-! ### One frame -/

/-- **A frame that declares just the names `own`**, and has a value for each. -/
structure Frame.Binds (own : List Name) (f : Frame α) : Prop where
  assigned : ∀ x ∈ own, f.Assigned x
  absent : ∀ x, x ∉ own → f.binding? x = none

namespace Frame

variable {own : List Name} {f : Frame α}

theorem binds_nil (parent : Option FrameId) : Binds [] (⟨[], parent⟩ : Frame α) where
  assigned _ hx := absurd hx List.not_mem_nil
  absent _ _ := rfl

theorem Binds.declares_iff (h : f.Binds own) (x : Name) : f.declares x = true ↔ x ∈ own := by
  by_cases hx : x ∈ own
  · obtain ⟨v, hv⟩ := h.assigned x hx
    simp [declares, hv, hx]
  · simp [declares, h.absent x hx, hx]

theorem Binds.assign (h : f.Binds own) (x : Name) (v : α) : (f.assign x v).Binds own where
  assigned y hy := (Grows.assign f x v).assigned y (h.assigned y hy)
  absent y hy := by
    rw [binding?_assign, h.absent y hy, Option.map_none, ite_self]

/-- A variable that is declared and then given a value. -/
theorem Binds.declare_assign (h : f.Binds own) (x : Name) (v : α) :
    ((f.declare x).assign x v).Binds (x :: own) where
  assigned y hy := by
    -- The variable is the new one, which has just been given a value, or it had one before.
    by_cases hyx : y = x
    · exact ⟨v, by rw [binding?_assign, binding?_declare, if_pos hyx, if_pos hyx]; rfl⟩
    · obtain ⟨w, hw⟩ := h.assigned y (List.mem_of_ne_of_mem hyx hy)
      exact ⟨w, by rw [binding?_assign, binding?_declare, if_neg hyx, if_neg hyx, hw]⟩
  absent y hy := by
    obtain ⟨hyx, hown⟩ := List.ne_and_not_mem_of_not_mem_cons hy
    rw [binding?_assign, binding?_declare, if_neg hyx, if_neg hyx, h.absent y hown]

end Frame

namespace Environment

variable {env : Environment α}

/-! ### What other variables see of a change -/

section Modify

variable {g : Frame α → Frame α} {y : Name}

/-- What is stored at a place after a change of one frame. -/
theorem frame_modify (env : Environment α) (id place : FrameId) (g : Frame α → Frame α) :
    (env.modify id g).frame place =
      (env.frame place).map fun f => if id = place then g f else f := by
  unfold frame modify
  rw [Array.getElem?_modify]
  by_cases hid : id = place
  · rw [if_pos hid]
    cases env.frames[place]? <;> simp [Except.map, hid]
  · rw [if_neg hid]
    cases env.frames[place]? <;> simp [Except.map, hid]

/-- The walk up the parents, past a frame that is changed in other variables only. -/
theorem search_modify (env : Environment α) (id : FrameId)
    (hparent : ∀ f : Frame α, (g f).parent = f.parent)
    (hbinding : ∀ f : Frame α, (g f).binding? y = f.binding? y) (place : FrameId) (bound : Nat) :
    (env.modify id g).search y place bound = env.search y place bound := by
  -- By induction on the bound. Whether a frame is the changed one or not, the walk asks it the same.
  induction bound generalizing place with
  | zero => rfl
  | succ bound ih =>
    have hdeclares (f : Frame α) : (g f).declares y = f.declares y := by
      rw [Frame.declares, Frame.declares, hbinding]
    rw [search, search, frame_modify]
    cases env.frame place with
    | error e => rfl
    | ok f =>
      dsimp only [Except.map]
      by_cases hid : id = place
      · simp only [if_pos hid, hdeclares, hparent, ih]
      · simp only [if_neg hid, ih]

/-- **A change to other variables** is not seen in the value of a variable. -/
theorem lookup_modify (env : Environment α) (id : FrameId)
    (hparent : ∀ f : Frame α, (g f).parent = f.parent)
    (hbinding : ∀ f : Frame α, (g f).binding? y = f.binding? y) :
    (env.modify id g).lookup y = env.lookup y := by
  have hfind : (env.modify id g).find y = env.find y := by
    rw [find, find, search_modify env id hparent hbinding, size_modify]
    rfl
  -- The frame that is found is the same, and so is what it binds the variable to.
  unfold lookup
  rw [hfind]
  cases env.find y with
  | error e => rfl
  | ok found =>
    cases found with
    | none => rfl
    | some place =>
      dsimp only
      rw [frame_modify]
      cases env.frame place with
      | error e => rfl
      | ok f =>
        dsimp only [Except.map]
        by_cases hid : id = place
        · rw [if_pos hid, hbinding]
        · rw [if_neg hid]

/-- **A variable that was just declared** in the innermost frame is found there, where the walk begins and
ends. -/
theorem find_modify_declare {f : Frame α} (hframe : env.frame env.current = .ok f) (x : Name) :
    (env.modify env.current (·.declare x)).find x = .ok (some env.current) := by
  have hframe' : (env.modify env.current (·.declare x)).frame env.current = .ok (f.declare x) := by
    rw [frame_modify, hframe, Except.map, if_pos rfl]
  have hdeclares : (f.declare x).declares x = true := by
    rw [Frame.declares, Frame.binding?_declare, if_pos rfl]
    rfl
  -- There is a frame, so the walk may take a step.
  obtain ⟨n, hsize⟩ : ∃ n, env.frames.size = n + 1 := by
    have hlt := (Array.getElem?_eq_some_iff.mp (getElem?_of_frame hframe)).1
    exact ⟨env.frames.size - 1, by omega⟩
  rw [find, size_modify, hsize]
  exact search_here hframe' hdeclares n

end Modify

/-! ### Stacks of names -/

/-- The place of the frame around another one, when `outer` are the names of the frames around it. -/
def parentPlace : List (List Name) → Option FrameId
  | [] => none
  | _ :: outer => some outer.length

/-- **An environment that models a stack of names**: its frames are stored from the outermost to the
innermost, each inside the one before it, and each binds the names of its list. -/
structure Models (stack : List (List Name)) (env : Environment α) : Prop where
  tidy : env.Tidy
  size : env.frames.size = stack.length
  frame : ∀ own outer, own :: outer <:+ stack → ∃ f, env.frames[outer.length]? = some f ∧
    f.Binds own ∧ f.parent = parentPlace outer

namespace Models

variable {own : List Name} {outer stack : List (List Name)} {x : Name}

/-- **At the start** the stack has one list, without a name in it. -/
theorem initial : Models [[]] (Environment.initial : Environment α) where
  tidy := tidy_initial
  size := rfl
  frame own outer hs := by
    obtain hs | hs := List.suffix_cons_iff.mp hs
    · cases hs
      exact ⟨_, rfl, Frame.binds_nil none, rfl⟩
    · cases List.eq_nil_of_suffix_nil hs

/-- The innermost frame is that of the first list. -/
theorem current_eq (h : env.Models (own :: outer)) : env.current = outer.length := by
  rw [h.tidy.current_eq, h.size, List.length_cons, Nat.add_sub_cancel]

/-- **The walk up the parents** finds a name of the stack from each frame on whose chain it is. -/
theorem search (h : env.Models stack) (hs : own :: outer <:+ stack)
    (hx : x ∈ (own :: outer).flatten) {bound : Nat} (hbound : outer.length < bound) :
    ∃ own' outer', own' :: outer' <:+ stack ∧ x ∈ own' ∧
      env.search x outer.length bound = .ok (some outer'.length) := by
  -- The lists around the first one are a shorter stack, at the end of the same one.
  induction outer generalizing own bound with
  | nil =>
    -- There is one frame left, so the name is among its own.
    obtain ⟨f, hget, hbinds, -⟩ := h.frame own [] hs
    obtain ⟨bound, rfl⟩ := Nat.exists_eq_succ_of_ne_zero (Nat.ne_of_gt (Nat.zero_lt_of_lt hbound))
    have hown : x ∈ own := by simpa using hx
    refine ⟨own, [], hs, hown, ?_⟩
    have hframe : env.frame ([] : List (List Name)).length = .ok f := by
      rw [Environment.frame, hget]
    exact Environment.search_here hframe ((hbinds.declares_iff x).mpr hown) bound
  | cons names outer ih =>
    obtain ⟨f, hget, hbinds, hparent⟩ := h.frame own (names :: outer) hs
    obtain ⟨bound, rfl⟩ := Nat.exists_eq_succ_of_ne_zero (Nat.ne_of_gt (Nat.zero_lt_of_lt hbound))
    have hframe : env.frame (names :: outer).length = .ok f := by rw [Environment.frame, hget]
    -- The innermost frame has the name, or one around it has.
    by_cases hown : x ∈ own
    · have hhere := Environment.search_here hframe ((hbinds.declares_iff x).mpr hown) bound
      exact ⟨own, names :: outer, hs, hown, hhere⟩
    · rw [Environment.search_up hframe (mt (hbinds.declares_iff x).mp hown) hparent]
      have hrest : x ∈ (names :: outer).flatten := by
        rw [List.flatten_cons, List.mem_append] at hx
        exact hx.resolve_left hown
      exact ih ((List.suffix_cons own _).trans hs) hrest (Nat.lt_of_succ_lt_succ hbound)

/-- A name of the stack is found in the frame of one of the lists. -/
theorem find (h : env.Models (own :: outer)) (hx : x ∈ (own :: outer).flatten) :
    ∃ own' outer', own' :: outer' <:+ own :: outer ∧ x ∈ own' ∧
      env.find x = .ok (some outer'.length) := by
  have hbound : outer.length < env.frames.size := by
    rw [h.size]
    exact Nat.lt_succ_self _
  rw [Environment.find, h.current_eq]
  exact h.search List.suffix_rfl hx hbound

theorem isDeclared (h : env.Models (own :: outer)) (hx : x ∈ (own :: outer).flatten) :
    env.isDeclared x = .ok true := by
  obtain ⟨own', outer', -, -, hfind⟩ := h.find hx
  rw [Environment.isDeclared, hfind]
  rfl

/-- **A name of the stack has a value.** -/
theorem lookup (h : env.Models (own :: outer)) (hx : x ∈ (own :: outer).flatten) :
    ∃ v, env.lookup x = .ok v := by
  obtain ⟨own', outer', hs, hown, hfind⟩ := h.find hx
  obtain ⟨f, hget, hbinds, -⟩ := h.frame own' outer' hs
  -- The frame that was found binds the name, so there is a value.
  obtain ⟨v, hv⟩ := hbinds.assigned x hown
  have hframe : env.frame outer'.length = .ok f := by rw [Environment.frame, hget]
  refine ⟨v, ?_⟩
  rw [Environment.lookup, hfind]
  dsimp only
  rw [hframe]
  dsimp only
  rw [hv]

/-! ### Changes -/

/-- A new value, in whatever frame. -/
theorem modify_assign (h : env.Models stack) (id : FrameId) (x : Name) (v : α) :
    (env.modify id (·.assign x v)).Models stack where
  tidy := h.tidy.modify id _
  size := (size_modify env id _).trans h.size
  frame own outer hs := by
    obtain ⟨f, hget, hbinds, hparent⟩ := h.frame own outer hs
    -- The changed frame binds the same names, and the others are as they were.
    by_cases hid : id = outer.length
    · refine ⟨f.assign x v, ?_, hbinds.assign x v, hparent⟩
      simp [Environment.modify, Array.getElem?_modify, hid, hget]
    · refine ⟨f, ?_, hbinds, hparent⟩
      simp [Environment.modify, Array.getElem?_modify, hid, hget]

/-- **A name of the stack can be given a value.** -/
theorem store (h : env.Models (own :: outer)) (hx : x ∈ (own :: outer).flatten) (v : α) :
    ∃ env', env.store x v = (.ok (), env') ∧ env'.Models (own :: outer) := by
  obtain ⟨own', outer', -, -, hfind⟩ := h.find hx
  refine ⟨env.modify outer'.length (·.assign x v), ?_, h.modify_assign _ x v⟩
  rw [Environment.store, hfind]

/-- A variable that is declared in the innermost frame and then given a value there. -/
theorem modify_declare_assign (h : env.Models (own :: outer)) (x : Name) (v : α) :
    ((env.modify outer.length (·.declare x)).modify outer.length (·.assign x v)).Models
      ((x :: own) :: outer) where
  tidy := (h.tidy.modify _ _).modify _ _
  size := by
    rw [size_modify, size_modify, h.size, List.length_cons, List.length_cons]
  frame own' outer' hs := by
    -- The innermost frame has one name more.
    obtain hs | hs := List.suffix_cons_iff.mp hs
    · cases hs
      obtain ⟨f, hget, hbinds, hparent⟩ := h.frame own outer List.suffix_rfl
      refine ⟨(f.declare x).assign x v, ?_, hbinds.declare_assign x v, hparent⟩
      simp [Environment.modify, Array.getElem?_modify, hget]
    · -- The frames around the innermost one are as they were.
      obtain ⟨f, hget, hbinds⟩ := h.frame own' outer' (hs.trans (List.suffix_cons own outer))
      have hne : outer.length ≠ outer'.length := by
        have hle := hs.length_le
        rw [List.length_cons] at hle
        omega
      refine ⟨f, ?_, hbinds⟩
      simp [Environment.modify, Array.getElem?_modify, hne, hget]

/-- **A name that the innermost block has not declared can be declared.** It has no value at first, and
all other variables have the values that they had. Once it is given one, the stack has one name more. -/
theorem declare (h : env.Models (own :: outer)) (hx : x ∉ own) :
    ∃ env', env.declare x = (.ok (), env') ∧ (∀ y, y ≠ x → env'.lookup y = env.lookup y) ∧
      ∀ v, ∃ env'', env'.store x v = (.ok (), env'') ∧ env''.Models ((x :: own) :: outer) := by
  obtain ⟨f, hget, hbinds, -⟩ := h.frame own outer List.suffix_rfl
  have hframe : env.frame outer.length = .ok f := by rw [Environment.frame, hget]
  -- The name is not in the innermost frame, so the declaration is carried out there. Other names do not
  -- see it, and the value that comes next goes to the same frame.
  refine ⟨env.modify outer.length (·.declare x), ?_, fun y hy => ?_, fun v => ?_⟩
  · have hlocal : env.isLocal x = .ok false := by
      rw [Environment.isLocal, h.current_eq, hframe]
      exact congrArg Except.ok (Bool.eq_false_iff.mpr (mt (hbinds.declares_iff x).mp hx))
    rw [Environment.declare, hlocal, h.current_eq]
  · refine env.lookup_modify _ (fun _ => rfl) fun f => ?_
    rw [Frame.binding?_declare, if_neg hy]
  · refine ⟨_, ?_, h.modify_declare_assign x v⟩
    have hfind : (env.modify outer.length (·.declare x)).find x = .ok (some outer.length) := by
      rw [← h.current_eq] at hframe ⊢
      exact find_modify_declare hframe x
    rw [Environment.store, hfind]

/-! ### Blocks -/

/-- **A block begins**, in which nothing is declared yet. -/
theorem beginScope (h : env.Models (own :: outer)) : env.beginScope.Models ([] :: own :: outer) where
  tidy := h.tidy.opened env.current
  size := by
    rw [Environment.beginScope, Array.size_push, h.size]
    rfl
  frame own' outer' hs := by
    -- The new frame is on top, and all others are at their places.
    obtain hs | hs := List.suffix_cons_iff.mp hs
    · cases hs
      refine ⟨⟨[], some env.current⟩, ?_, Frame.binds_nil _, congrArg some h.current_eq⟩
      rw [Environment.beginScope, ← h.size, Array.getElem?_push_size]
    · obtain ⟨f, hget, hbinds⟩ := h.frame own' outer' hs
      have hlt : outer'.length < env.frames.size := by
        rw [h.size]
        exact hs.length_le
      refine ⟨f, ?_, hbinds⟩
      rw [Environment.beginScope, Array.getElem?_push, if_neg (Nat.ne_of_lt hlt), hget]

/-- **A block ends**, and its names with it. -/
theorem endScope {own' : List Name} (h : env.Models (own :: own' :: outer)) :
    env.endScope.Models (own' :: outer) where
  tidy := h.tidy.endScope
  size := by
    have hsize : env.frames.size = outer.length + 1 + 1 := h.size
    rw [h.tidy.size_endScope (by omega), hsize, List.length_cons, Nat.add_sub_cancel]
  frame own₁ outer₁ hs := by
    -- A frame that stays is further out than the one that ends.
    obtain ⟨f, hget, hbinds⟩ := h.frame own₁ outer₁ (hs.trans (List.suffix_cons own _))
    have hlt : outer₁.length < env.current := by
      rw [h.current_eq]
      exact hs.length_le
    exact ⟨f, (getElem?_endScope hlt).trans hget, hbinds⟩

end Models

end Environment

end Silly
