import Silly.Proofs.Environment.Frames
import Silly.Proofs.Environment.History

/-!
# Places may be used again

A client of an environment goes by the places that its frames were given, although places are given
out again. As long as it names live frames only, it is answered as if no place was ever used twice
(`Tenancy.answers_eq_history`).

The reason is how long a place stays with its frame. The live frames are a stack, and each of them is
at the place that is its height in the stack for as long as it is live (`Tenancy.Follows`). A parent
was live when its frame was created, so it is further down in the stack and outlives the frame. A walk
up the parents therefore goes down the stack, from place to smaller place, and meets live frames only.
-/

namespace Silly

variable {α : Type}

namespace Tenancy

variable {t : Tenancy α} {h : History α} {u v : Serial} {us vs : List Serial}

/-! ### Live frames and their places -/

/-- A live frame is somewhere in the stack. -/
theorem exists_suffix (hu : u ∈ h.live) : ∃ us, u :: us <:+ h.live := by
  obtain ⟨above, us, hsplit⟩ := List.append_of_mem hu
  exact ⟨us, above, hsplit.symm⟩

/-- There is a live frame at every height of the stack. -/
theorem exists_of_height {n : Nat} (hn : n < h.live.length) :
    ∃ u us, u :: us <:+ h.live ∧ us.length = n := by
  -- The frame at height `n` is found from the other end of the stack.
  have hdrop := List.drop_eq_getElem_cons (show h.live.length - 1 - n < h.live.length by omega)
  refine ⟨_, _, hdrop ▸ List.drop_suffix _ _, ?_⟩
  rw [List.length_drop]
  omega

/-- **A live frame is at its place**, which is the number of the live frames `us` below it. What the
environment stores there is what the record says of the frame, and the parent is one of `us`. Only
the frame below all others has none. -/
structure Houses (t : Tenancy α) (h : History α) (u : Serial) (us : List Serial) : Prop where
  place : t.places[u]? = some us.length
  frame : ∃ f, t.env.frames[us.length]? = some f ∧ (∀ x, f.binding? x = h.vars u x) ∧
    ((us = [] ∧ h.parent u = none ∧ f.parent = none) ∨
      ∃ p ps, p :: ps <:+ us ∧ h.parent u = some p ∧ f.parent = some ps.length)

/-- **An environment stands for a record** of frames: the live frames are stored, each at its place,
and nothing else is. -/
structure Follows (t : Tenancy α) (h : History α) : Prop where
  tidy : t.env.Tidy
  size : t.env.frames.size = h.live.length
  created : t.places.size = h.created
  houses : ∀ u us, u :: us <:+ h.live → t.Houses h u us

/-- **At the start** only the global frame is live, and it is at the first place. -/
theorem follows_initial : (initial : Tenancy α).Follows .initial where
  tidy := Environment.tidy_initial
  size := rfl
  created := rfl
  houses u us hu := by
    obtain ⟨rfl, rfl⟩ : u = 0 ∧ us = [] := by
      simpa [History.live, History.initial, List.suffix_cons_iff] using hu
    exact ⟨rfl, ⟨[], none⟩, rfl, fun _ => rfl, .inl ⟨rfl, rfl, rfl⟩⟩

/-- The place that was written down for a live frame is the height at which it is. -/
theorem Houses.place_eq (hu : t.Houses h u us) : t.place u = us.length := by
  rw [Tenancy.place, Array.getD_eq_getD_getElem?, hu.place, Option.getD_some]

namespace Follows

/-- The innermost frame of the one is that of the other. -/
theorem current_eq (hf : t.Follows h) : t.env.current = h.others.length := by
  rw [hf.tidy.current_eq, hf.size]
  rfl

/-- The innermost frame is at the height of all the others. -/
theorem innermost (hf : t.Follows h) : t.Houses h h.innermost h.others :=
  hf.houses _ _ List.suffix_rfl

/-- **Two live frames are at two places.** -/
theorem length_eq_iff (hf : t.Follows h) (hu : u :: us <:+ h.live) (hv : v :: vs <:+ h.live) :
    us.length = vs.length ↔ u = v := by
  constructor
  · intro hplace
    -- Two ends of the stack that are equally long are the same.
    have hsuffix := List.suffix_of_suffix_length_le hu hv (by simp [hplace])
    have heq : u :: us = v :: vs := hsuffix.eq_of_length (by simp [hplace])
    exact (List.cons.inj heq).1
  · rintro rfl
    have hplace := (hf.houses u us hu).place
    rw [(hf.houses u vs hv).place] at hplace
    exact (Option.some.inj hplace).symm

/-! ### What names mean -/

/-- **The walk up the parents** of a live frame ends, and comes to the place of the frame that the
name means there. -/
theorem search_cases (hf : t.Follows h) (x : Name) (hu : u :: us <:+ h.live) {bound : Nat}
    (hbound : us.length < bound) :
    (h.resolve x u = none ∧ t.env.search x us.length bound = .ok none) ∨
      ∃ v vs, h.resolve x u = some v ∧ v :: vs <:+ h.live ∧ (h.vars v x).isSome = true ∧
        t.env.search x us.length bound = .ok (some vs.length) := by
  -- The parent is further down in the stack, so a smaller bound is enough for the rest.
  induction bound generalizing u us with
  | zero => exact absurd hbound (Nat.not_lt_zero _)
  | succ bound ih =>
    obtain ⟨f, hget, hvars, hparent⟩ := (hf.houses u us hu).frame
    have hframe : t.env.frame us.length = .ok f := by rw [Environment.frame, hget]
    have hdeclares : f.declares x = (h.vars u x).isSome := by rw [Frame.declares, hvars]
    simp only [Environment.search, hframe, hdeclares]
    -- The frame declares the name, and is what the name means. If it does not, the name means what it
    -- means in the parent, if there is one.
    by_cases hx : (h.vars u x).isSome = true
    · rw [if_pos hx, History.resolve_of_declared hx]
      exact .inr ⟨u, us, rfl, hu, hx, rfl⟩
    · rw [if_neg hx]
      obtain ⟨-, hp, hfp⟩ | ⟨p, ps, hps, hp, hfp⟩ := hparent
      · rw [hfp, History.resolve_of_root hx hp]
        exact .inl ⟨rfl, rfl⟩
      · have hlive : p :: ps <:+ h.live := (hps.trans (List.suffix_cons u us)).trans hu
        have hshorter : ps.length < us.length := hps.length_le
        rw [hfp, History.resolve_of_parent hx hp]
        exact ih hlive (by omega)

/-- **What a name means** in the innermost frame. -/
theorem find_cases (hf : t.Follows h) (x : Name) :
    (h.resolve x h.innermost = none ∧ t.env.find x = .ok none) ∨
      ∃ v vs, h.resolve x h.innermost = some v ∧ v :: vs <:+ h.live ∧
        (h.vars v x).isSome = true ∧ t.env.find x = .ok (some vs.length) := by
  have hbound : h.others.length < t.env.frames.size := by
    rw [hf.size]
    exact Nat.lt_succ_self _
  rw [Environment.find, hf.current_eq]
  exact hf.search_cases x List.suffix_rfl hbound

/-- Whether the innermost frame declares a variable itself. -/
theorem isLocal_eq (hf : t.Follows h) (x : Name) :
    t.env.isLocal x = .ok (h.vars h.innermost x).isSome := by
  obtain ⟨f, hget, hvars, -⟩ := hf.innermost.frame
  have hframe : t.env.frame t.env.current = .ok f := by
    rw [hf.current_eq, Environment.frame, hget]
  rw [Environment.isLocal, hframe, Except.map, Frame.declares, hvars]

/-- **A lookup** reads the value that the record has for the name. -/
theorem lookup_eq (hf : t.Follows h) (x : Name) :
    t.env.lookup x =
      match h.resolve x h.innermost with
      | none => .error (.error (.undeclared x))
      | some u =>
        match h.vars u x with
        | some (some v) => .ok v
        | _ => .error (.error (.unassigned x)) := by
  rw [Environment.lookup]
  obtain ⟨hr, hfind⟩ | ⟨v, vs, hr, hv, -, hfind⟩ := hf.find_cases x
  · rw [hr, hfind]
  -- The frame that the name means is stored at its height, with the variables of the record.
  · obtain ⟨f, hget, hvars, -⟩ := (hf.houses v vs hv).frame
    have hframe : t.env.frame vs.length = .ok f := by rw [Environment.frame, hget]
    rcases hx : h.vars v x with _ | _ | w
    all_goals simp only [hr, hfind, hframe, hvars, hx]

/-! ### What an operation does -/

/-- **A new frame** inside a live one takes the next place, and all others keep theirs. -/
theorem create (hf : t.Follows h) {p : Serial} {ps : List Serial} (hp : p :: ps <:+ h.live)
    (hlive : p ∈ h.live) :
    Follows ⟨t.env.opened ps.length, t.places.push (t.env.opened ps.length).current⟩
      (h.create p hlive) := by
  have hopened : (t.env.opened ps.length).Tidy := hf.tidy.opened ps.length
  have hsize : (t.env.opened ps.length).frames.size = h.live.length + 1 := by
    rw [Environment.opened, Array.size_push, hf.size]
  have hcurrent : (t.env.opened ps.length).current = h.live.length := by
    rw [hopened.current_eq, hsize, Nat.add_sub_cancel]
  -- The stack has one frame more, which is on top. So there are two kinds of live frames to look at.
  refine ⟨hopened, hsize, ?_, fun u us hu => ?_⟩
  · rw [Array.size_push, hf.created]
    rfl
  rcases List.suffix_cons_iff.mp hu with heq | hu
  · -- The new frame is on top of all live ones.
    obtain ⟨rfl, rfl⟩ := List.cons.inj heq
    refine ⟨?_, ⟨[], some ps.length⟩, ?_, fun x => ?_, .inr ⟨p, ps, hp, ?_, rfl⟩⟩
    · have hcreated : (h.create p hlive).innermost = t.places.size := hf.created.symm
      rw [hcreated, Array.getElem?_push_size, hcurrent]
      rfl
    · have hheight : h.live.length = t.env.frames.size := hf.size.symm
      show (t.env.opened ps.length).frames[h.live.length]? = _
      rw [hheight, Environment.opened, Array.getElem?_push_size]
    · simp [History.create, Frame.binding?]
    · simp [History.create]
  · -- All others are where they were, and their serial numbers are smaller.
    obtain ⟨hplace, f, hget, hvars, hparent⟩ := hf.houses u us hu
    have hne : u ≠ h.created := Nat.ne_of_lt (h.known u (hu.subset List.mem_cons_self))
    refine ⟨?_, f, ?_, fun x => ?_, ?_⟩
    · have hlt : u < t.places.size := (Array.getElem?_eq_some_iff.mp hplace).1
      rw [Array.getElem?_push, if_neg (Nat.ne_of_lt hlt), hplace]
    · have hlt : us.length < t.env.frames.size := (Array.getElem?_eq_some_iff.mp hget).1
      rw [Environment.opened, Array.getElem?_push, if_neg (Nat.ne_of_lt hlt), hget]
    · simp [History.create, hne, hvars]
    · simpa [History.create, hne] using hparent

/-- **The end of the innermost frame** leaves all others at their places. -/
theorem close (hf : t.Follows h) : Follows ⟨t.env.endScope, t.places⟩ h.close := by
  unfold History.close
  split
  · next hothers =>
    -- Only the global frame is live, and it does not end.
    have hone : ¬ 1 < t.env.live.size := by
      rw [hf.tidy.live, Array.size_range, hf.size, History.live, hothers]
      exact Nat.lt_irrefl 1
    rw [Environment.endScope, if_neg hone]
    exact hf
  · next w ws hothers =>
    have hlive : h.live = h.innermost :: w :: ws := by rw [History.live, hothers]
    have htwo : 1 < t.env.frames.size := by
      rw [hf.size, hlive]
      exact Nat.succ_lt_succ (Nat.succ_pos _)
    have hsize : t.env.endScope.frames.size = ws.length + 1 := by
      rw [hf.tidy.size_endScope htwo, hf.size, hlive]
      rfl
    refine ⟨hf.tidy.endScope, hsize, hf.created, fun u us hu => ?_⟩
    have hu' : u :: us <:+ h.live := hlive ▸ hu.trans (List.suffix_cons _ _)
    obtain ⟨hplace, f, hget, hvars, hparent⟩ := hf.houses u us hu'
    refine ⟨hplace, f, ?_, hvars, hparent⟩
    -- What stays is further down than what ends.
    have hlt : us.length < t.env.current := by
      rw [hf.current_eq, hothers]
      exact hu.length_le
    exact (Environment.getElem?_endScope hlt).trans hget

/-- **Binding a variable** of a live frame changes the frame at its place alone. -/
theorem bind (hf : t.Follows h) (hv : v :: vs <:+ h.live) {x : Name} {b : Option α}
    {g : Frame α → Frame α} (hparent : ∀ f, (g f).parent = f.parent)
    (hg : ∀ f, (∀ y, f.binding? y = h.vars v y) →
      ∀ y, (g f).binding? y = if y = x then some b else f.binding? y) :
    Follows ⟨t.env.modify vs.length g, t.places⟩ (h.bind v x b) where
  tidy := hf.tidy.modify _ _
  size := (Environment.size_modify _ _ _).trans hf.size
  created := hf.created
  houses u us hu := by
    obtain ⟨hplace, f, hget, hvars, hfp⟩ := hf.houses u us hu
    -- Another live frame is at another place, so it is not the one that changes.
    by_cases huv : u = v
    · subst huv
      have hheight : vs.length = us.length := (hf.length_eq_iff hv hu).mpr rfl
      refine ⟨hplace, g f, ?_, fun y => ?_, ?_⟩
      · simp [Environment.modify, Array.getElem?_modify, hheight, hget]
      · rw [hg f hvars, hvars]
        simp [History.bind]
      · rw [hparent]
        exact hfp
    · have hheight : ¬ vs.length = us.length := fun heq => huv ((hf.length_eq_iff hv hu).mp heq).symm
      refine ⟨hplace, f, ?_, fun y => ?_, hfp⟩
      · simp [Environment.modify, Array.getElem?_modify, hheight, hget]
      · simp [History.bind, huv, hvars]

/-- **One use** is answered in the same way by both, and what stood for the record stands for it
again. -/
theorem use (hf : t.Follows h) (use : ScopeUse Serial α)
    (hlive : ∀ p, use = .beginScopeIn p → p ∈ h.live) :
    (t.use use).1 = (h.use use).1 ∧ (t.use use).2.Follows (h.use use).2 := by
  have hcurrent : t.env.current = h.others.length := hf.current_eq
  -- Each use comes down to one of the operations above, or it changes nothing.
  cases use with
  | beginScope =>
    have hbegin : t.env.beginScope = t.env.opened h.others.length := by
      rw [← hcurrent]
      rfl
    refine ⟨rfl, ?_⟩
    simp only [Tenancy.use, Environment.use, ScopeUse.map, hbegin]
    exact hf.create List.suffix_rfl List.mem_cons_self
  | beginScopeIn p =>
    have hp : p ∈ h.live := hlive p rfl
    -- A live frame is still at the place that was written down for it, and that place is live.
    obtain ⟨ps, hsuffix⟩ := exists_suffix hp
    have hplace : t.place p = ps.length := (hf.houses p ps hsuffix).place_eq
    have hstored : ps.length < t.env.frames.size := by
      rw [hf.size]
      exact hsuffix.length_le
    have hbegin : t.env.beginScopeIn ps.length = (.ok (), t.env.opened ps.length) := by
      have hmem : t.env.live.contains ps.length = true :=
        Array.contains_iff_mem.mpr ((hf.tidy.mem_live _).mpr hstored)
      rw [Environment.beginScopeIn_eq, if_pos hmem]
    simp only [Tenancy.use, Environment.use, ScopeUse.map, hplace, hbegin, History.use, dif_pos hp]
    exact ⟨trivial, hf.create hsuffix hp⟩
  | endScope => exact ⟨rfl, hf.close⟩
  | declare x =>
    simp only [Tenancy.use, Environment.use, ScopeUse.map, Environment.declare, hf.isLocal_eq,
      History.use]
    -- The frame declares the name already, and the use is refused by both.
    by_cases hx : (h.vars h.innermost x).isSome = true
    · rw [if_pos hx, hx]
      exact ⟨rfl, hf⟩
    · have hnew : (h.vars h.innermost x).isSome = false := Bool.eq_false_iff.mpr hx
      rw [if_neg hx, hnew, hcurrent]
      refine ⟨rfl, hf.bind List.suffix_rfl (fun _ => rfl) fun f _ y => ?_⟩
      rw [Frame.binding?_declare]
  | store x v =>
    simp only [Tenancy.use, Environment.use, ScopeUse.map, Environment.store, History.use]
    obtain ⟨hr, hfind⟩ | ⟨u, us, hr, hu, hx, hfind⟩ := hf.find_cases x
    · rw [hr, hfind]
      exact ⟨rfl, hf⟩
    · rw [hr, hfind]
      refine ⟨rfl, hf.bind hu (fun _ => rfl) fun f hvars y => ?_⟩
      rw [Frame.binding?_assign]
      -- The frame declares `x`, so there is a binding to replace.
      by_cases hy : y = x
      · obtain ⟨b, hb⟩ := Option.isSome_iff_exists.mp hx
        rw [if_pos hy, if_pos hy, hy, hvars, hb, Option.map_some]
      · rw [if_neg hy, if_neg hy]
  | lookup x =>
    simp only [Tenancy.use, Environment.use, ScopeUse.map, hf.lookup_eq, History.use]
    cases h.resolve x h.innermost with
    | none => exact ⟨rfl, hf⟩
    | some u =>
      dsimp only
      rcases h.vars u x with _ | _ | _
      all_goals exact ⟨rfl, hf⟩
  | isDeclared x =>
    simp only [Tenancy.use, Environment.use, ScopeUse.map, Environment.isDeclared, History.use]
    obtain ⟨hr, hfind⟩ | ⟨u, us, hr, -, -, hfind⟩ := hf.find_cases x
    all_goals
      rw [hr, hfind]
      exact ⟨rfl, hf⟩
  | isLocal x =>
    simp only [Tenancy.use, Environment.use, ScopeUse.map, hf.isLocal_eq, History.use]
    exact ⟨trivial, hf⟩
  | depth =>
    have hdepth : t.env.depth = h.live.length := by
      rw [Environment.depth, hf.tidy.live, Array.size_range, hf.size]
    simp only [Tenancy.use, Environment.use, ScopeUse.map, hdepth, History.use]
    exact ⟨trivial, hf⟩

/-- **A run of uses.** -/
theorem answers (hf : t.Follows h) (uses : List (ScopeUse Serial α)) (hadmits : h.Admits uses) :
    (Silly.answers Tenancy.use t uses).1 = (Silly.answers History.use h uses).1 ∧
      (Silly.answers Tenancy.use t uses).2.Follows (Silly.answers History.use h uses).2 := by
  induction uses generalizing t h with
  | nil => exact ⟨rfl, hf⟩
  | cons use uses ih =>
    obtain ⟨hlive, hrest⟩ := hadmits
    obtain ⟨hanswer, hf'⟩ := hf.use use hlive
    obtain ⟨hanswers, hend⟩ := ih hf' hrest
    refine ⟨?_, hend⟩
    simp only [Silly.answers, hanswer, hanswers]

end Follows

/-! ### The places that are used again -/

/-- **What is stored is the stack of the live frames**, and what a name means at a place is what it
means in the frame that the place was given to. -/
structure Mirrors (t : Tenancy α) (h : History α) : Prop where
  live : t.env.live = Array.range t.env.frames.size
  size : t.env.frames.size = h.live.length
  /-- The walk up the parents goes to smaller places. -/
  parents : ∀ id f, t.env.frames[id]? = some f →
    (id = FrameId.global ∧ f.parent = none) ∨ ∃ p < id, f.parent = some p
  /-- Every place has one live frame. -/
  occupied : ∀ id < t.env.frames.size,
    ∃ u ∈ h.live, t.place u = id ∧ ∀ v ∈ h.live, t.place v = id → v = u
  frame : ∀ u ∈ h.live, ∃ f, t.env.frames[t.place u]? = some f ∧
    (∀ x, f.binding? x = h.vars u x) ∧ f.parent = (h.parent u).map t.place
  /-- The parent of a live frame is live. -/
  parent_live : ∀ u ∈ h.live, ∀ p, h.parent u = some p → p ∈ h.live
  search : ∀ u ∈ h.live, ∀ x,
    t.env.search x (t.place u) t.env.frames.size = .ok ((h.resolve x u).map t.place)

theorem Follows.mirrors (hf : t.Follows h) : t.Mirrors h where
  live := hf.tidy.live
  size := hf.size
  parents id f hget := by
    have hid : id < h.live.length := by
      rw [← hf.size]
      exact (Array.getElem?_eq_some_iff.mp hget).1
    obtain ⟨u, us, hu, rfl⟩ := exists_of_height hid
    obtain ⟨g, hget', -, hparent⟩ := (hf.houses u us hu).frame
    obtain rfl : f = g := Option.some.inj (hget.symm.trans hget')
    obtain ⟨rfl, -, hfp⟩ | ⟨p, ps, hps, -, hfp⟩ := hparent
    · exact .inl ⟨rfl, hfp⟩
    · exact .inr ⟨ps.length, hps.length_le, hfp⟩
  occupied id hid := by
    rw [hf.size] at hid
    obtain ⟨u, us, hu, rfl⟩ := exists_of_height hid
    refine ⟨u, hu.subset List.mem_cons_self, (hf.houses u us hu).place_eq, fun v hv hplace => ?_⟩
    obtain ⟨vs, hvs⟩ := exists_suffix hv
    refine (hf.length_eq_iff hvs hu).mp ?_
    rw [← (hf.houses v vs hvs).place_eq, hplace]
  frame u hu := by
    obtain ⟨us, hus⟩ := exists_suffix hu
    obtain ⟨f, hget, hvars, hparent⟩ := (hf.houses u us hus).frame
    refine ⟨f, (hf.houses u us hus).place_eq ▸ hget, hvars, ?_⟩
    obtain ⟨-, hp, hfp⟩ | ⟨p, ps, hps, hp, hfp⟩ := hparent
    · rw [hfp, hp, Option.map_none]
    · have hlive : p :: ps <:+ h.live := (hps.trans (List.suffix_cons u us)).trans hus
      rw [hfp, hp, Option.map_some, (hf.houses p ps hlive).place_eq]
  parent_live u hu p hp := by
    obtain ⟨us, hus⟩ := exists_suffix hu
    obtain ⟨f, -, -, hparent⟩ := (hf.houses u us hus).frame
    obtain ⟨-, hnone, -⟩ | ⟨p', ps, hps, hp', -⟩ := hparent
    · cases hp.symm.trans hnone
    · obtain rfl : p = p' := Option.some.inj (hp.symm.trans hp')
      exact hus.subset (List.mem_cons_of_mem u (hps.subset List.mem_cons_self))
  search u hu x := by
    obtain ⟨us, hus⟩ := exists_suffix hu
    have hbound : us.length < t.env.frames.size := by
      rw [hf.size]
      exact hus.length_le
    rw [(hf.houses u us hus).place_eq]
    obtain ⟨hr, hsearch⟩ | ⟨v, vs, hr, hv, -, hsearch⟩ := hf.search_cases x hus hbound
    · rw [hsearch, hr, Option.map_none]
    · rw [hsearch, hr, Option.map_some, (hf.houses v vs hv).place_eq]

/-- **Reusing places is not noticed.** Whatever a client of a new environment does, as long as it
names live frames only, it gets the answers that it would get if every frame was kept for good and
known by its serial number. No frame is ever missing, and the live ones are those that are stored. -/
theorem answers_eq_history (uses : List (ScopeUse Serial α))
    (hadmits : (History.initial : History α).Admits uses) :
    (answers Tenancy.use .initial uses).1 = (answers History.use .initial uses).1 ∧
      (∀ f, .fault f ∉ (answers Tenancy.use .initial uses).1) ∧
      (answers Tenancy.use .initial uses).2.Mirrors (answers History.use .initial uses).2 := by
  obtain ⟨hanswers, hend⟩ := follows_initial.answers uses hadmits
  refine ⟨hanswers, fun f hf => ?_, hend.mirrors⟩
  exact History.not_fault_of_admits uses hadmits f (hanswers ▸ hf)

/-- A frame ends, and its place is given to a frame that does not declare the same variables. -/
theorem answers_eq_history_reused :
    let uses : List (ScopeUse Serial Nat) :=
      [.beginScope, .declare ⟨0⟩, .endScope, .beginScopeIn 0, .isLocal ⟨0⟩, .depth]
    (History.initial : History Nat).Admits uses ∧
      (answers History.use .initial uses).1 =
        [.done, .done, .done, .done, .truth false, .number 2] ∧
      (answers Tenancy.use .initial uses).1 = (answers History.use .initial uses).1 ∧
      (answers Tenancy.use .initial uses).2.places = #[0, 1, 1] := by
  have hadmits : (History.initial : History Nat).Admits
      [.beginScope, .declare ⟨0⟩, .endScope, .beginScopeIn 0, .isLocal ⟨0⟩, .depth] := by
    simp [History.Admits, History.use, History.create, History.initial, History.close,
      History.bind, History.live]
  exact ⟨hadmits, rfl, (answers_eq_history _ hadmits).1, by decide +kernel⟩

end Tenancy

end Silly
