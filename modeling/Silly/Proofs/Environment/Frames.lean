import Silly.Environment

/-!
# What becomes of the frames

Frames are known by their places, and a frame that ends gives up its place and all places after it.
That no other frame is lost with it rests on the order of the places: the live frames are at the
places from `0` on, innermost last, and no other frame is stored (`Environment.Tidy`). Every
operation keeps this.

An operation may also change frames. What it can do to them is little: it declares a variable in the
innermost frame, or it gives a variable a value. So a frame keeps its parent, its names and its
values, and gains names if it is the innermost one (`Environment.Grows`).
-/

namespace Silly

variable {α : Type}

/-! ### One frame -/

namespace Frame

/-- The names that a frame declares, newest first. -/
def names (f : Frame α) : List Name := f.bindings.map Prod.fst

/-- The variable is declared here, and has a value. -/
def Assigned (f : Frame α) (x : Name) : Prop := ∃ v, f.binding? x = some (some v)

/-- **A frame and the same frame later**, when it has gained the names `added`. -/
structure Grows (added : List Name) (f f' : Frame α) : Prop where
  parent : f'.parent = f.parent
  names : f'.names = added ++ f.names
  /-- No variable has lost its value. -/
  assigned : ∀ x, f.Assigned x → f'.Assigned x

theorem Grows.refl (f : Frame α) : f.Grows [] f := ⟨rfl, rfl, fun _ => id⟩

/-- A frame gains first some names and then no more. -/
theorem Grows.trans {added : List Name} {f f' f'' : Frame α} (h : f.Grows added f')
    (h' : f'.Grows [] f'') : f.Grows added f'' where
  parent := h'.parent.trans h.parent
  names := h'.names.trans h.names
  assigned x hx := h'.assigned x (h.assigned x hx)

/-- What is bound after a declaration: the new variable has no value, and all others are as they were.
-/
theorem binding?_declare (f : Frame α) (x y : Name) :
    (f.declare x).binding? y = if y = x then some none else f.binding? y := by
  unfold binding? declare
  rw [List.lookup_cons]
  by_cases h : y = x
  · simp [h]
  · simp [h, beq_false_of_ne h]

/-- What is bound after an assignment: the value is new if the variable was declared. -/
theorem binding?_assign (f : Frame α) (x y : Name) (v : α) :
    (f.assign x v).binding? y =
      if y = x then (f.binding? y).map fun _ => some v else f.binding? y := by
  obtain ⟨bindings, parent⟩ := f
  unfold binding? assign
  dsimp only
  -- By induction on the bindings. The one that is looked up may be the changed one, or stand behind it.
  induction bindings with
  | nil => simp
  | cons b bs ih =>
    rw [List.map_cons, List.lookup_cons, List.lookup_cons, ih]
    by_cases hb : b.1 = x
    · by_cases hy : y = x
      · simp [hb, hy]
      · simp [hb, hy, beq_false_of_ne hy]
    · by_cases hy : y = b.1
      · simp [hy, hb]
      · simp [hb, beq_false_of_ne hy]

/-- **A new variable**, which has no value. The frame must not declare it yet, since the old value
would be lost. -/
theorem Grows.declare {f : Frame α} {x : Name} (hx : f.declares x = false) :
    f.Grows [x] (f.declare x) where
  parent := rfl
  names := rfl
  assigned y hy := by
    obtain ⟨v, hv⟩ := hy
    -- A variable with a value is declared, so it is not the new one.
    have hne : y ≠ x := by
      rintro rfl
      simp [declares, hv] at hx
    exact ⟨v, by rw [binding?_declare, if_neg hne, hv]⟩

/-- **A new value.** -/
theorem Grows.assign (f : Frame α) (x : Name) (v : α) : f.Grows [] (f.assign x v) where
  parent := rfl
  names := by
    -- The values change and the names do not.
    unfold Frame.names Frame.assign
    rw [List.map_map]
    refine List.map_congr_left fun b _ => ?_
    by_cases hb : b.1 = x
    · simp [hb]
    · simp [hb]
  assigned y hy := by
    obtain ⟨w, hw⟩ := hy
    -- Only the value of `x` changes, and it is a value again.
    by_cases hyx : y = x
    · exact ⟨v, by rw [binding?_assign, if_pos hyx, hw, Option.map_some]⟩
    · exact ⟨w, by rw [binding?_assign, if_neg hyx, hw]⟩

end Frame

namespace Environment

variable {env env' env'' : Environment α}

/-! ### The places of the frames -/

/-- **The frames that are stored are the live ones**, in the order of their places, and there is one
at least. -/
structure Tidy (env : Environment α) : Prop where
  live : env.live = Array.range env.frames.size
  pos : 0 < env.frames.size

theorem tidy_initial : (initial : Environment α).Tidy := ⟨rfl, Nat.one_pos⟩

/-- The innermost frame is the last one. -/
theorem Tidy.current_eq (h : env.Tidy) : env.current = env.frames.size - 1 := by
  have hlast : env.live.back? = some (env.frames.size - 1) := by
    have hlt : env.frames.size - 1 < env.frames.size := Nat.sub_one_lt_of_lt h.pos
    rw [Array.back?_eq_getElem?, h.live, Array.size_range, Array.getElem?_range, if_pos hlt]
  rw [current, hlast, Option.getD_some]

/-- A frame is live just when its place is taken. -/
theorem Tidy.mem_live (h : env.Tidy) (id : FrameId) :
    id ∈ env.live ↔ id < env.frames.size := by
  rw [h.live, Array.mem_range]

/-- The environment with a new innermost frame that has the given parent. -/
def opened (env : Environment α) (parent : FrameId) : Environment α :=
  ⟨env.frames.push ⟨[], some parent⟩, env.live.push env.frames.size⟩

theorem beginScopeIn_eq (env : Environment α) (parent : FrameId) :
    env.beginScopeIn parent =
      if env.live.contains parent then (.ok (), env.opened parent)
      else (.error (.frame parent), env) := rfl

theorem Tidy.opened (h : env.Tidy) (parent : FrameId) : (env.opened parent).Tidy where
  live := by simp [Environment.opened, h.live, Array.range_succ]
  pos := by simp [Environment.opened]

/-- The end of a frame frees one place. -/
theorem Tidy.size_endScope (h : env.Tidy) (hsize : 1 < env.frames.size) :
    env.endScope.frames.size = env.frames.size - 1 := by
  have hdepth : 1 < env.live.size := by
    rw [h.live, Array.size_range]
    exact hsize
  rw [endScope, if_pos hdepth, Array.size_shrink, h.current_eq]
  exact Nat.min_eq_left (Nat.sub_le _ _)

/-- **Ending a frame keeps the order of the places.** -/
theorem Tidy.endScope (h : env.Tidy) : env.endScope.Tidy := by
  by_cases hsize : 1 < env.frames.size
  · have hends := h.size_endScope hsize
    refine ⟨?_, by omega⟩
    have hdepth : 1 < env.live.size := by
      rw [h.live, Array.size_range]
      exact hsize
    -- The last place is given up in both arrays.
    obtain ⟨n, hn⟩ := Nat.exists_eq_add_of_lt h.pos
    rw [hends, Environment.endScope, if_pos hdepth, h.live, hn]
    simp [Array.range_succ]
  · -- Only the global frame is live, and it does not end.
    have hdepth : ¬ 1 < env.live.size := by
      rw [h.live, Array.size_range]
      exact hsize
    rw [Environment.endScope, if_neg hdepth]
    exact h

theorem size_modify (env : Environment α) (id : FrameId) (g : Frame α → Frame α) :
    (env.modify id g).frames.size = env.frames.size := Array.size_modify

theorem Tidy.modify (h : env.Tidy) (id : FrameId) (g : Frame α → Frame α) :
    (env.modify id g).Tidy where
  live := by
    rw [size_modify]
    exact h.live
  pos := by
    rw [size_modify]
    exact h.pos

/-- The global frame is always live, so a frame inside it can be opened. -/
theorem Tidy.beginScopeIn_global (h : env.Tidy) :
    env.beginScopeIn FrameId.global = (.ok (), env.opened FrameId.global) := by
  have hlive : env.live.contains FrameId.global = true :=
    Array.contains_iff_mem.mpr ((h.mem_live _).mpr h.pos)
  rw [beginScopeIn_eq, if_pos hlive]

/-! ### Walking up the parents -/

section Search

variable {x : Name} {id parent : FrameId} {f : Frame α}

/-- A frame that is looked up is stored. -/
theorem getElem?_of_frame {f : Frame α} (h : env.frame id = .ok f) : env.frames[id]? = some f := by
  unfold frame at h
  split at h
  · next hget => rw [hget, Except.ok.inj h]
  · cases h

/-- The walk stops at a frame that declares the name. -/
theorem search_here (hframe : env.frame id = .ok f) (hx : f.declares x = true) (bound : Nat) :
    env.search x id (bound + 1) = .ok (some id) := by
  rw [search, hframe]
  exact if_pos hx

/-- It goes on from each other frame that has a parent. -/
theorem search_up (hframe : env.frame id = .ok f) (hx : ¬ f.declares x = true)
    (hparent : f.parent = some parent) (bound : Nat) :
    env.search x id (bound + 1) = env.search x parent bound := by
  rw [search, hframe]
  dsimp only
  rw [if_neg hx, hparent]

end Search

/-! ### Frames that stay -/

/-- **All frames are still there**, and only the innermost one may have gained names, which are
among `new`. -/
def Grows (new : List Name) (env env' : Environment α) : Prop :=
  ∀ id f, env.frames[id]? = some f →
    ∃ f' added, env'.frames[id]? = some f' ∧ f.Grows added f' ∧
      ∀ x ∈ added, id = env.current ∧ x ∈ new

/-- **The frames at the places before `n`** are as they were but for new values. -/
def Keeps (n : Nat) (env env' : Environment α) : Prop :=
  ∀ id f, id < n → env.frames[id]? = some f → ∃ f', env'.frames[id]? = some f' ∧ f.Grows [] f'

theorem Grows.refl (new : List Name) (env : Environment α) : env.Grows new env :=
  fun _ f hf => ⟨f, [], hf, .refl f, fun _ hx => absurd hx List.not_mem_nil⟩

theorem Keeps.mono {n n' : Nat} (h : env.Keeps n env') (hn : n' ≤ n) : env.Keeps n' env' :=
  fun id f hid => h id f (Nat.lt_of_lt_of_le hid hn)

/-- What is not innermost gains no names. -/
theorem Grows.keeps {new : List Name} (h : env.Grows new env') {n : Nat} (hn : n ≤ env.current) :
    env.Keeps n env' := by
  intro id f hid hf
  obtain ⟨f', added, hf', hgrows, hadded⟩ := h id f hf
  -- A name that was added would be in the innermost frame, which is further in.
  obtain rfl : added = [] := by
    refine List.eq_nil_iff_forall_not_mem.mpr fun x hx => ?_
    exact absurd (hadded x hx).1 (Nat.ne_of_lt (Nat.lt_of_lt_of_le hid hn))
  exact ⟨f', hf', hgrows⟩

/-- **Where no names are new**, all frames are kept. -/
theorem Grows.keeps_all (h : env.Grows [] env') (n : Nat) : env.Keeps n env' := by
  intro id f _ hf
  obtain ⟨f', added, hf', hgrows, hadded⟩ := h id f hf
  obtain rfl : added = [] :=
    List.eq_nil_iff_forall_not_mem.mpr fun x hx => absurd (hadded x hx).2 List.not_mem_nil
  exact ⟨f', hf', hgrows⟩

/-- **What happens further in** leaves the frames that were there alone. -/
theorem Grows.trans_keeps {new : List Name} (h : env.Grows new env')
    (h' : env'.Keeps env.frames.size env'') : env.Grows new env'' := by
  intro id f hf
  obtain ⟨f', added, hf', hgrows, hadded⟩ := h id f hf
  obtain ⟨f'', hf'', hkept⟩ := h' id f' (Array.getElem?_eq_some_iff.mp hf).1 hf'
  exact ⟨f'', added, hf'', hgrows.trans hkept, hadded⟩

/-- **The end of the innermost frame** leaves the frames before it as they are. -/
theorem getElem?_endScope {id : Nat} (hid : id < env.current) :
    env.endScope.frames[id]? = env.frames[id]? := by
  unfold Environment.endScope
  -- If a frame ends, the first places are left, and this one is among them.
  split
  · rw [Array.shrink_eq_take, Array.take_eq_extract, Array.getElem?_extract, Nat.zero_add]
    split
    · rfl
    · have hout : env.frames.size ≤ id := by omega
      exact (Array.getElem?_eq_none hout).symm
  · rfl

/-- Without the innermost frame, the frames before it are left. -/
theorem Tidy.endScope_frames (h : env.Tidy) {fs : Array (Frame α)}
    {f : Frame α} (hframes : env.frames = fs.push f) (hpos : 0 < fs.size) :
    env.endScope.frames = fs := by
  have hsize : env.frames.size = fs.size + 1 := by rw [hframes, Array.size_push]
  have hcurrent : env.current = fs.size := by rw [h.current_eq, hsize, Nat.add_sub_cancel]
  have hends : env.endScope.frames.size = fs.size := by
    rw [h.size_endScope (by omega), hsize, Nat.add_sub_cancel]
  -- Place by place: those before the last one are the old ones, and none is left after them.
  refine Array.ext_getElem? fun id => ?_
  by_cases hid : id < fs.size
  · rw [getElem?_endScope (hcurrent ▸ hid), hframes, Array.getElem?_push, if_neg (Nat.ne_of_lt hid)]
  · rw [Array.getElem?_eq_none (by omega), Array.getElem?_eq_none (by omega)]

theorem keeps_endScope (env : Environment α) : env.Keeps env.current env.endScope :=
  fun _ f hid hf => ⟨f, (getElem?_endScope hid).trans hf, .refl f⟩

/-! ### What an operation does -/

/-- **What an operation can do to the frames**: it opens `n` of them, and the innermost one so far
gains names among `new`. -/
structure Opens (new : List Name) (n : Nat) (env env' : Environment α) : Prop where
  tidy : env.Tidy → env'.Tidy
  size : env'.frames.size = env.frames.size + n
  grows : env.Grows new env'

theorem Opens.refl (new : List Name) (env : Environment α) : env.Opens new 0 env :=
  ⟨id, rfl, .refl new env⟩

/-- **Operations one after the other**, where the second declares nothing in the frames there were. -/
theorem Opens.trans {new : List Name} {n n' : Nat} (h : env.Opens new n env')
    (h' : env'.Opens [] n' env'') : env.Opens new (n + n') env'' where
  tidy := h'.tidy ∘ h.tidy
  size := by rw [h'.size, h.size, Nat.add_assoc]
  grows := h.grows.trans_keeps (h'.grows.keeps_all _)

/-- **A new frame** takes a place of its own. -/
theorem opens_opened (env : Environment α) (parent : FrameId) :
    env.Opens [] 1 (env.opened parent) where
  tidy h := h.opened parent
  size := Array.size_push _
  grows id f hf := by
    have hid : id < env.frames.size := (Array.getElem?_eq_some_iff.mp hf).1
    refine ⟨f, [], ?_, .refl f, fun _ hx => absurd hx List.not_mem_nil⟩
    rw [opened, Array.getElem?_push, if_neg (Nat.ne_of_lt hid), hf]

/-- Changing one frame, which changes as the innermost one may. -/
theorem opens_modify {new : List Name} (env : Environment α) (id : FrameId)
    {g : Frame α → Frame α}
    (hg : ∀ f, env.frames[id]? = some f →
      ∃ added, f.Grows added (g f) ∧ ∀ x ∈ added, id = env.current ∧ x ∈ new) :
    env.Opens new 0 (env.modify id g) where
  tidy h := h.modify id g
  size := size_modify env id g
  grows place f hf := by
    -- The changed frame has grown by what it gained, and all others have grown by nothing.
    by_cases hid : id = place
    · subst hid
      obtain ⟨added, hgrows, hadded⟩ := hg f hf
      refine ⟨g f, added, ?_, hgrows, hadded⟩
      simp [modify, Array.getElem?_modify, hf]
    · refine ⟨f, [], ?_, .refl f, fun _ hx => absurd hx List.not_mem_nil⟩
      simp [modify, Array.getElem?_modify, hid, hf]

/-- **A new value** is all that a frame gains. -/
theorem opens_store (env : Environment α) (x : Name) (v : α) :
    env.Opens [] 0 (env.store x v).2 := by
  unfold store
  split
  · exact .refl _ _
  · exact .refl _ _
  · exact opens_modify _ _ fun f _ =>
      ⟨[], .assign f x v, fun _ hx => absurd hx List.not_mem_nil⟩

/-- **A new variable** is in the innermost frame. -/
theorem opens_declare (env : Environment α) (x : Name) :
    env.Opens [x] 0 (env.declare x).2 := by
  unfold declare
  split
  · exact .refl _ _
  · exact .refl _ _
  · next hlocal =>
    -- The check that comes first says that the frame does not declare `x` yet.
    refine opens_modify _ _ fun f hf => ?_
    have hx : f.declares x = false := by
      simpa [isLocal, frame, hf, Except.map] using hlocal
    exact ⟨[x], .declare hx, fun y hy => ⟨rfl, hy⟩⟩

end Environment

end Silly
