import Silly.Proofs.Heap.Value

/-!
# The order of values

Values are compared in part only. Two lists may differ in kind at some place, and whether their
comparison comes as far as that place depends on what stands before it. So the laws of an order have
to be shown of a comparison that may fail, and the last of them is that it never fails where two
comparisons that have not failed imply its outcome (`lt_trans`).

All of it is shown of values that carry their texts, by induction on the first of them. If a
comparison succeeds, then the first value tells what the second one is like (`compare_int_iff`
and those after it), so there are no mixed cases to go through. A value with handles then is compared
as what it stands for is, and no two valid values stand for the same, since a heap holds no text
twice (`Valid.eq_of_plain_eq`).
-/

namespace Silly

/-- Two handles of one text are the same handle. -/
theorem Heap.eq_of_read_eq {h : Heap} {x y : Handle} (hx : (h.text? x).isSome)
    (hy : (h.text? y).isSome) (hxy : h.read x = h.read y) : x = y := by
  obtain ⟨s, hs⟩ := Option.isSome_iff_exists.mp hx
  obtain ⟨t, ht⟩ := Option.isSome_iff_exists.mp hy
  rw [read, read, hs, ht, Option.getD_some, Option.getD_some] at hxy
  subst hxy
  -- The table finds a text under one number, which both handles then have.
  have hx' : h.table.index[s]? = some x.index := (h.table.agree s x.index).mpr hs
  have hy' : h.table.index[s]? = some y.index := (h.table.agree s y.index).mpr ht
  have hindex : x.index = y.index := Option.some.inj (hx'.symm.trans hy')
  cases x
  cases y
  exact congrArg Handle.mk hindex

namespace Value

/-! ### Valid values stand for different things -/

section Plain

variable {h : Heap}

mutual
/-- **Values that stand for the same are the same.** -/
theorem Valid.eq_of_plain_eq : ∀ {a b : Value}, a.Valid h → b.Valid h → a.plain h = b.plain h → a = b
  | int _, b, _, _, hab | bool _, b, _, _, hab => by
    cases b <;> simp_all
  | str x, b, hx, hb, hab => by
    cases b with
    | str y =>
      rw [plain_str, plain_str, str.injEq] at hab
      rw [Heap.eq_of_read_eq hx hb hab]
    | int | bool | list => simp at hab
  | list as, b, ha, hb, hab => by
    cases b with
    | list bs =>
      rw [plain_list, plain_list, list.injEq] at hab
      rw [itemsValid_eq_of_plain_eq ha hb hab]
    | int | bool | str => simp at hab

/-- Lists of values that stand for the same are the same. -/
theorem itemsValid_eq_of_plain_eq : ∀ {as bs : List Value}, itemsValid h as → itemsValid h bs →
    as.map (plain h) = bs.map (plain h) → as = bs
  | [], bs, _, _, hab => (List.map_eq_nil_iff.mp hab.symm).symm
  | a :: as, [], _, _, hab => by simp at hab
  | a :: as, b :: bs, ha, hb, hab => by
    rw [List.map_cons, List.map_cons, List.cons.injEq] at hab
    rw [ha.1.eq_of_plain_eq hb.1 hab.1, itemsValid_eq_of_plain_eq ha.2 hb.2 hab.2]
end

/-- **What a value stands for** tells the value. -/
theorem Valid.plain_inj {a b : Value} (ha : a.Valid h) (hb : b.Valid h) :
    a.plain h = b.plain h ↔ a = b :=
  ⟨ha.eq_of_plain_eq hb, congrArg _⟩

end Plain

/-! ### What a comparison says of the second value -/

theorem compare_of_kind_ne {σ H : Type} [StringStore σ H] (h : H) {a b : Value σ}
    (hk : a.kind ≠ b.kind) :
    a.compare h b = Outcome.fail (.typeMismatch .comparison [a.kind, b.kind]) := by
  cases a <;> cases b <;> first | rfl | exact absurd rfl hk

/-- Values that can be compared are of one kind. -/
theorem kind_eq_of_compare {σ H : Type} [StringStore σ H] {h : H} {a b : Value σ} {o : Ordering}
    (hab : a.compare h b = .ok o) : a.kind = b.kind := by
  by_contra hk
  rw [compare_of_kind_ne h hk] at hab
  cases hab

variable {a b : Value String} {as bs : List (Value String)} {o : Ordering}

theorem compare_int_iff {m : Int64} :
    (int m).compare () b = .ok o ↔ ∃ n, b = int n ∧ Ord.compare m.toInt n.toInt = o := by
  cases b <;> simp [compare, Outcome.fail]

theorem compare_str_iff {s : String} :
    (str s).compare () b = .ok o ↔ ∃ t, b = str t ∧ Ord.compare s t = o := by
  cases b <;> simp [compare, Outcome.fail]

theorem compare_bool_iff {p : Bool} :
    (bool p).compare () b = .ok o ↔ ∃ q, b = bool q ∧ Ord.compare p q = o := by
  cases b <;> simp [compare, Outcome.fail]

theorem compare_list_iff :
    (list as).compare () b = .ok o ↔ ∃ bs, b = list bs ∧ compareItems () as bs = .ok o := by
  cases b <;> simp [compare, Outcome.fail]

/-- **The comparison of two lists** ends with their first items, or these are equal and it is that of
the rest. -/
theorem compareItems_cons_iff : compareItems () (a :: as) (b :: bs) = .ok o ↔
    (a.compare () b = .ok o ∧ o ≠ .eq) ∨ (a.compare () b = .ok .eq ∧ compareItems () as bs = .ok o) := by
  rw [compareItems]
  cases a.compare () b with
  | error e => simp
  | ok o' => cases o' <;> cases o <;> simp

/-! ### The laws -/

mutual
/-- **Values that compare equal are equal.** -/
theorem compare_eq_iff : ∀ {a b : Value String}, a.compare () b = .ok .eq ↔ a = b
  | int m, b => by
    rw [compare_int_iff]
    constructor
    · rintro ⟨n, rfl, hmn⟩
      rw [Int64.toInt_inj.mp (Std.compare_eq_iff_eq.mp hmn)]
    · rintro rfl
      exact ⟨m, rfl, Std.ReflOrd.compare_self⟩
  | str s, b => by
    rw [compare_str_iff]
    constructor
    · rintro ⟨t, rfl, hst⟩
      rw [Std.compare_eq_iff_eq.mp hst]
    · rintro rfl
      exact ⟨s, rfl, Std.ReflOrd.compare_self⟩
  | bool p, b => by
    rw [compare_bool_iff]
    constructor
    · rintro ⟨q, rfl, hpq⟩
      rw [Std.compare_eq_iff_eq.mp hpq]
    · rintro rfl
      exact ⟨p, rfl, Std.ReflOrd.compare_self⟩
  | list as, b => by
    rw [compare_list_iff]
    constructor
    · rintro ⟨bs, rfl, hitems⟩
      rw [compareItems_eq_iff.mp hitems]
    · rintro rfl
      exact ⟨as, rfl, compareItems_eq_iff.mpr rfl⟩

/-- Lists that compare equal are equal, item by item. -/
theorem compareItems_eq_iff : ∀ {as bs : List (Value String)}, compareItems () as bs = .ok .eq ↔ as = bs
  | [], [] => by simp [compareItems]
  | [], _ :: _ | _ :: _, [] => by simp [compareItems]
  | a :: as, b :: bs => by
    rw [compareItems_cons_iff, List.cons.injEq, compare_eq_iff, compareItems_eq_iff]
    simp
end

mutual
/-- **The reverse comparison** has the reverse outcome. -/
theorem compare_swap : ∀ {a b : Value String} {o : Ordering}, a.compare () b = .ok o →
    b.compare () a = .ok o.swap
  | int m, b, o, hab => by
    obtain ⟨n, rfl, rfl⟩ := compare_int_iff.mp hab
    rw [compare, ← Std.OrientedOrd.eq_swap]
  | str s, b, o, hab => by
    obtain ⟨t, rfl, rfl⟩ := compare_str_iff.mp hab
    rw [compare, text_unit, text_unit, ← Std.OrientedOrd.eq_swap]
  | bool p, b, o, hab => by
    obtain ⟨q, rfl, rfl⟩ := compare_bool_iff.mp hab
    rw [compare, ← Std.OrientedOrd.eq_swap]
  | list as, b, o, hab => by
    obtain ⟨bs, rfl, hitems⟩ := compare_list_iff.mp hab
    rw [compare, compareItems_swap hitems]

/-- The reverse comparison of two lists. -/
theorem compareItems_swap : ∀ {as bs : List (Value String)} {o : Ordering},
    compareItems () as bs = .ok o → compareItems () bs as = .ok o.swap
  -- A list that ends first is the smaller one.
  | [], [], o, hab | [], _ :: _, o, hab | _ :: _, [], o, hab => by
    cases hab
    rfl
  | a :: as, b :: bs, o, hab => by
    -- The first items decide, or they are equal and the rest decides in reverse.
    obtain ⟨hfirst, ho⟩ | ⟨hfirst, hrest⟩ := compareItems_cons_iff.mp hab
    · refine compareItems_cons_iff.mpr (.inl ⟨compare_swap hfirst, ?_⟩)
      rwa [ne_eq, Ordering.swap_eq_eq]
    · exact compareItems_cons_iff.mpr (.inr ⟨compare_swap hfirst, compareItems_swap hrest⟩)
end

mutual
/-- **Transitivity.** In particular the third comparison does not fail. -/
theorem lt_trans : ∀ {a b c : Value String}, a.compare () b = .ok .lt → b.compare () c = .ok .lt →
    a.compare () c = .ok .lt
  | int _, b, c, hab, hbc => by
    obtain ⟨n, rfl, hmn⟩ := compare_int_iff.mp hab
    obtain ⟨l, rfl, hnl⟩ := compare_int_iff.mp hbc
    exact compare_int_iff.mpr ⟨l, rfl, Std.TransCmp.lt_trans hmn hnl⟩
  | str _, b, c, hab, hbc => by
    obtain ⟨t, rfl, hst⟩ := compare_str_iff.mp hab
    obtain ⟨u, rfl, htu⟩ := compare_str_iff.mp hbc
    exact compare_str_iff.mpr ⟨u, rfl, Std.TransCmp.lt_trans hst htu⟩
  | bool _, b, c, hab, hbc => by
    obtain ⟨q, rfl, hpq⟩ := compare_bool_iff.mp hab
    obtain ⟨r, rfl, hqr⟩ := compare_bool_iff.mp hbc
    exact compare_bool_iff.mpr ⟨r, rfl, Std.TransCmp.lt_trans hpq hqr⟩
  | list _, b, c, hab, hbc => by
    obtain ⟨bs, rfl, has⟩ := compare_list_iff.mp hab
    obtain ⟨cs, rfl, hbs⟩ := compare_list_iff.mp hbc
    exact compare_list_iff.mpr ⟨cs, rfl, items_lt_trans has hbs⟩

/-- Transitivity for lists, which go by the first difference. -/
theorem items_lt_trans : ∀ {as bs cs : List (Value String)}, compareItems () as bs = .ok .lt →
    compareItems () bs cs = .ok .lt → compareItems () as cs = .ok .lt
  -- No list is less than the empty one.
  | [], bs, [], _, hbc => by cases bs <;> cases hbc
  | [], _, _ :: _, _, _ => rfl
  | _ :: _, [], _, hab, _ => by cases hab
  | _ :: _, _ :: _, [], _, hbc => by cases hbc
  | a :: as, b :: bs, c :: cs, hab, hbc => by
    -- Where the first items are equal, one of them stands for the other.
    obtain ⟨hab, -⟩ | ⟨hab, has⟩ := compareItems_cons_iff.mp hab
    · obtain ⟨hbc, -⟩ | ⟨hbc, -⟩ := compareItems_cons_iff.mp hbc
      · exact compareItems_cons_iff.mpr (.inl ⟨lt_trans hab hbc, nofun⟩)
      · rw [compare_eq_iff.mp hbc] at hab
        exact compareItems_cons_iff.mpr (.inl ⟨hab, nofun⟩)
    · rw [compare_eq_iff.mp hab]
      obtain ⟨hbc, -⟩ | ⟨hbc, hbs⟩ := compareItems_cons_iff.mp hbc
      · exact compareItems_cons_iff.mpr (.inl ⟨hbc, nofun⟩)
      · exact compareItems_cons_iff.mpr (.inr ⟨hbc, items_lt_trans has hbs⟩)
end

mutual
/-- **A comparison that fails** has come to two kinds that differ. -/
theorem compare_cases : ∀ a b : Value String, (∃ o, a.compare () b = .ok o) ∨
    ∃ k l, k ≠ l ∧ a.compare () b = Outcome.fail (.typeMismatch .comparison [k, l])
  | int _, b | str _, b | bool _, b => by
    cases b <;> first | exact .inl ⟨_, rfl⟩ | exact .inr ⟨_, _, by nofun, rfl⟩
  | list as, b => by
    cases b with
    | list bs => exact compareItems_cases as bs
    | int | str | bool => exact .inr ⟨_, _, by nofun, rfl⟩

/-- A comparison of lists that fails has come to items of two kinds. -/
theorem compareItems_cases : ∀ as bs : List (Value String), (∃ o, compareItems () as bs = .ok o) ∨
    ∃ k l, k ≠ l ∧ compareItems () as bs = Outcome.fail (.typeMismatch .comparison [k, l])
  | [], [] | [], _ :: _ | _ :: _, [] => .inl ⟨_, rfl⟩
  | a :: as, b :: bs => by
    rw [compareItems]
    obtain ⟨o, ho⟩ | ⟨k, l, hkl, hfail⟩ := compare_cases a b
    · rw [ho]
      cases o with
      | eq => exact compareItems_cases as bs
      | lt | gt => exact .inl ⟨_, rfl⟩
    · rw [hfail]
      exact .inr ⟨k, l, hkl, rfl⟩
end

end Value

/-! ### The four comparisons -/

namespace BinaryOp

variable {σ H : Type} [StringStore σ H] {op : BinaryOp} {h : H} {a b : Value σ}

theorem apply_of_isComparison (hop : op.isComparison = true) :
    op.apply a b h = (op.compareValues h a b, h) := by
  unfold apply
  rw [if_pos hop]

/-- **An operator that compares** tells what the comparison has come to. -/
theorem apply_of_compare {o : Ordering} (hop : op.isComparison = true)
    (hab : a.compare h b = .ok o) : op.apply a b h = (.ok (.bool (op.holds o)), h) := by
  rw [apply_of_isComparison hop, compareValues, if_pos (Value.kind_eq_of_compare hab), hab]
  rfl

/-- An operator that compares fails if the comparison does. -/
theorem apply_of_compare_fail {e : RunError} (hop : op.isComparison = true)
    (hab : a.compare h b = Outcome.fail e) : ∃ e', op.apply a b h = (Outcome.fail e', h) := by
  rw [apply_of_isComparison hop, compareValues]
  split
  · exact ⟨e, by rw [hab]; rfl⟩
  · exact ⟨_, rfl⟩

end BinaryOp

/-- **Values are partially ordered by comparison**, if one heap has given out all the handles in them.
Values compare equal just if they are equal, the reverse comparison has the reverse outcome and fails
when this one does, and what is less than something less is less. The four operators fail together,
or else one of `<`, `=` and `>` holds, which is what the comparison says, and `\` is the negation of
`=`. -/
theorem Value.compare_partialOrder {h : Heap} {a b c : Value} (ha : a.Valid h) (hb : b.Valid h)
    (hc : c.Valid h) :
    (a.compare h b = .ok .eq ↔ a = b) ∧
      (∀ o, a.compare h b = .ok o ↔ b.compare h a = .ok o.swap) ∧
      ((∃ e, a.compare h b = Outcome.fail e) ↔ ∃ e, b.compare h a = Outcome.fail e) ∧
      (a.compare h b = .ok .lt → b.compare h c = .ok .lt → a.compare h c = .ok .lt) ∧
      (((∃ e, a.compare h b = Outcome.fail e) ∧
          ∀ op ∈ [BinaryOp.eq, .notEq, .lt, .gt], ∃ e, op.apply a b h = (Outcome.fail e, h)) ∨
        ∃ lt eq gt : Bool, [lt, eq, gt].count true = 1 ∧
          a.compare h b = .ok (if lt then .lt else if eq then .eq else .gt) ∧
          BinaryOp.lt.apply a b h = (.ok (.bool lt), h) ∧
          BinaryOp.eq.apply a b h = (.ok (.bool eq), h) ∧
          BinaryOp.gt.apply a b h = (.ok (.bool gt), h) ∧
          BinaryOp.notEq.apply a b h = (.ok (.bool !eq), h)) := by
  have hab := Value.compare_plain ha hb
  have hba := Value.compare_plain hb ha
  refine ⟨?_, fun o => ⟨fun ho => ?_, fun ho => ?_⟩, ?_, fun hlt hlt' => ?_, ?_⟩
  -- Equality: values that stand for the same are the same.
  · rw [← hab, Value.compare_eq_iff, ha.plain_inj hb]
  · rw [← hba]
    exact Value.compare_swap (hab.trans ho)
  · rw [← hab, ← o.swap_swap]
    exact Value.compare_swap (hba.trans ho)
  · -- What fails one way has no outcome the other way either.
    rw [← hab, ← hba]
    obtain ⟨o, ho⟩ | ⟨k, l, -, hfail⟩ := Value.compare_cases (a.plain h) (b.plain h)
    · rw [ho, Value.compare_swap ho]
      exact iff_of_false nofun nofun
    · obtain ⟨o, ho⟩ | ⟨k', l', -, hfail'⟩ := Value.compare_cases (b.plain h) (a.plain h)
      · rw [Value.compare_swap ho] at hfail
        cases hfail
      · exact iff_of_true ⟨_, hfail⟩ ⟨_, hfail'⟩
  -- Transitivity is that of what the values stand for.
  · rw [← Value.compare_plain ha hc]
    exact Value.lt_trans (hab.trans hlt) ((Value.compare_plain hb hc).trans hlt')
  -- The comparison has an outcome, which the four operators tell, or it fails and so do they.
  · obtain ⟨o, ho⟩ | ⟨k, l, -, hfail⟩ := Value.compare_cases (a.plain h) (b.plain h)
    · rw [hab] at ho
      right
      refine ⟨decide (o = .lt), decide (o = .eq), decide (o = .gt), ?_, ?_, BinaryOp.apply_of_compare rfl ho,
        BinaryOp.apply_of_compare rfl ho, BinaryOp.apply_of_compare rfl ho, ?_⟩
      · cases o <;> rfl
      · rw [ho]
        cases o <;> rfl
      · rw [BinaryOp.apply_of_compare rfl ho]
        cases o <;> rfl
    · rw [hab] at hfail
      left
      refine ⟨⟨_, hfail⟩, fun op hop => BinaryOp.apply_of_compare_fail ?_ hfail⟩
      simp only [List.mem_cons, List.not_mem_nil, or_false] at hop
      obtain rfl | rfl | rfl | rfl := hop <;> rfl

/-- Lists that are told apart by a string before they come to items of different kinds. The text
`b` has the first handle here and `a` the second, and it is the texts that count. -/
theorem Value.compare_partialOrder_nested :
    let h := ((Heap.empty.intern "b").2.intern "a").2
    let a : Value := .list [.str ⟨1⟩, .list [.int 1]]
    let b : Value := .list [.str ⟨1⟩, .list [.int 1, .bool true]]
    let c : Value := .list [.str ⟨0⟩, .int 2]
    b.compare h a = .ok .gt ∧ a.compare h c = .ok .lt := by
  intro h a b c
  have hfirst : (h.text? ⟨0⟩).isSome := by decide +kernel
  have hsecond : (h.text? ⟨1⟩).isSome := by decide +kernel
  have ha : a.Valid h := ⟨hsecond, ⟨trivial, trivial⟩, trivial⟩
  have hb : b.Valid h := ⟨hsecond, ⟨trivial, trivial, trivial⟩, trivial⟩
  have hc : c.Valid h := ⟨hfirst, trivial, trivial⟩
  have hab : a.compare h b = .ok .lt := by decide +kernel
  have hbc : b.compare h c = .ok .lt := by decide +kernel
  obtain ⟨-, hswap, -, htrans, -⟩ := Value.compare_partialOrder ha hb hc
  exact ⟨(hswap .lt).mp hab, htrans hab hbc⟩

end Silly
