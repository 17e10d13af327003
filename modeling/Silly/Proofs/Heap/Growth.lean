import Silly.Proofs.Heap.Run

/-!
# What evaluation adds to the heap

An evaluation makes strings on its way, for literals, for joined strings and for characters, and what it
has made stays in the heap even if it fails after that. All that it does to the heap is to put texts
after those that were there (`Expr.extends_eval`, `Heap.extends_iff_prefix`). Nothing is asked of the
values for this.

Once an expression has been evaluated, its strings are in the heap. So where it is evaluated again, with
the same values of its variables, it finds them all, in this heap as in each later one. It comes to the
same outcome with the same handles, and adds nothing (`Expr.settled_eval`). Here the handles in the values
have to be given out already: what a later heap gives out for the first time, an earlier one lacks.
-/

namespace Silly

/-! ### Texts that are added -/

/-- **Growth is at the end.** The texts that a table has numbered keep their numbers just if they are
still the first ones. -/
theorem TextTable.extends_iff_prefix {t t' : TextTable} :
    t.Extends t' ↔ t.texts.toList <+: t'.texts.toList := by
  rw [List.prefix_iff_getElem?]
  constructor
  -- The numbers of the first table count its texts from the first one on.
  · intro h i hi
    have hget : t.texts[i]? = some t.texts.toList[i] := by
      rw [← Array.getElem?_toList, List.getElem?_eq_getElem hi]
    rw [Array.getElem?_toList]
    exact text?_of_extends h hget
  · intro h s i hs
    obtain ⟨hi, rfl⟩ := Array.getElem?_eq_some_iff.mp ((t.agree s i).mp hs)
    rw [t'.agree, ← Array.getElem?_toList, ← Array.getElem_toList]
    exact h i hi

namespace Heap

/-- The texts of a heap, by their handles. -/
def texts (h : Heap) : List String := h.table.texts.toList

/-- A heap has grown from another one just if its texts begin with those of the other. -/
theorem extends_iff_prefix {h h' : Heap} : h.Extends h' ↔ h.texts <+: h'.texts :=
  TextTable.extends_iff_prefix

end Heap

/-- **A new string** is put at the end, or it was there. -/
theorem BinaryOp.extends_newString (h : Heap) (text : Outcome String) :
    h.Extends (newString h text : Outcome Value × Heap).2 := by
  cases text with
  | error s => exact .refl h
  | ok s => exact h.extends_intern s

/-- **An operator** adds at most one string. -/
theorem BinaryOp.extends_apply (op : BinaryOp) (a b : Value) (h : Heap) :
    h.Extends (op.apply a b h).2 := by
  unfold apply
  by_cases hop : op.isComparison = true
  · rw [if_pos hop]
    exact .refl h
  · rw [if_neg hop]
    -- By the two kinds, as the operator does; only two pairs of kinds make a string.
    cases a with
    | int m => cases b <;> exact .refl h
    | bool p => cases b <;> exact .refl h
    | list xs => cases b <;> exact .refl h
    | str x =>
      cases b with
      | str y =>
        dsimp only
        split
        · exact extends_newString h _
        · exact .refl h
      | int i =>
        dsimp only
        split
        · exact extends_newString h _
        · exact .refl h
      | bool | list => exact .refl h

variable {names : Interner} {env : Environment}

mutual
/-- **Evaluating an expression** only adds strings to the heap, whatever it comes to. -/
theorem Expr.extends_eval : ∀ (e : Expr) (h : Heap), h.Extends (e.eval names env h).2
  | .int _, h | .bool _, h | .var _, h => .refl h
  | .str _, h => BinaryOp.extends_newString h _
  | .list es, h => by
    have hitems := items_extends_eval es h
    rw [Expr.eval]
    revert hitems
    obtain ⟨s | vs, h'⟩ := evalItems names env es h <;> exact id
  | .unary op e, h => by
    have hoperand := e.extends_eval h
    rw [Expr.eval]
    revert hoperand
    obtain ⟨s | v, h'⟩ := e.eval names env h <;> exact id
  | .binary op l r, h => by
    -- The heap grows with the first operand, with the second one, and with the operator.
    have hleft := l.extends_eval h
    rw [Expr.eval]
    revert hleft
    obtain ⟨s | v, h'⟩ := l.eval names env h
    · exact id
    · intro hleft
      have hright := r.extends_eval h'
      dsimp only
      revert hright
      obtain ⟨s | w, h''⟩ := r.eval names env h'
      · exact hleft.trans
      · exact fun hright => (hleft.trans hright).trans (op.extends_apply v w h'')

/-- The items of a list, one after the other. -/
theorem items_extends_eval : ∀ (es : List Expr) (h : Heap),
    h.Extends (evalItems names env es h).2
  | [], h => .refl h
  | e :: es, h => by
    have hfirst := e.extends_eval h
    rw [evalItems]
    revert hfirst
    obtain ⟨s | v, h'⟩ := e.eval names env h
    · exact id
    · intro hfirst
      have hrest := items_extends_eval es h'
      dsimp only
      revert hrest
      obtain ⟨s | vs, h''⟩ := evalItems names env es h' <;> exact hfirst.trans
end

/-! ### Evaluating again -/

/-- **A computation that is settled** once it was made in the heap `h`: made again in any later heap, it
has the same outcome and adds nothing. -/
def Settled {α : Type} (f : Heap → Outcome α × Heap) (h : Heap) : Prop :=
  ∀ h', (f h).2.Extends h' → f h' = ((f h).1, h')

/-- The handle of a text is found by the text the next time. -/
theorem BinaryOp.settled_newString (h : Heap) (text : Outcome String) :
    Settled (fun h => (newString h text : Outcome Value × Heap)) h := by
  intro h' hh
  cases text with
  | error s => rfl
  | ok s =>
    have htext : h'.text? (h.intern s).1 = some s :=
      Heap.text?_of_extends hh (Heap.text?_intern h s)
    have hintern : h'.intern s = ((h.intern s).1, h') := by
      rw [Heap.intern, TextTable.intern_of_text? htext]
    show (Except.ok (Value.str (h'.intern s).1), (h'.intern s).2) = _
    rw [hintern]
    rfl

section Operators

variable {h h' : Heap} {a b : Value}

/-- A text that has been read is read again from each later heap. -/
theorem Heap.text_of_extends (hh : h.Extends h') {x : Handle} (hx : (h.text? x).isSome) :
    StringStore.text h' x = StringStore.text h x := by
  obtain ⟨s, hs⟩ := Option.isSome_iff_exists.mp hx
  have htext (h : Heap) : StringStore.text h x = Outcome.ofOption (.handle x.index) (h.text? x) := rfl
  rw [htext, htext, hs, Heap.text?_of_extends hh hs]

/-- Two values are compared alike in each later heap. -/
theorem Value.compare_of_extends (hh : h.Extends h') (ha : a.Valid h) (hb : b.Valid h) :
    a.compare h' b = a.compare h b := by
  rw [← compare_plain (ha.of_extends hh) (hb.of_extends hh), ha.plain_of_extends hh,
    hb.plain_of_extends hh, compare_plain ha hb]

/-- **A unary operator** reads the same in each later heap. -/
theorem UnaryOp.apply_of_extends (op : UnaryOp) (hh : h.Extends h') (ha : a.Valid h) :
    op.apply h' a = op.apply h a := by
  cases op with
  | not => cases a <;> rfl
  | len =>
    cases a with
    | str x => rw [apply, apply, Heap.text_of_extends hh ha]
    | int | bool | list => rfl

namespace BinaryOp

theorem joined_of_extends (hh : h.Extends h') {x y : Handle} (hx : (h.text? x).isSome)
    (hy : (h.text? y).isSome) : joined h' x y = joined h x y := by
  rw [joined, joined, Heap.text_of_extends hh hx, Heap.text_of_extends hh hy]

theorem charAt_of_extends (hh : h.Extends h') {x : Handle} (hx : (h.text? x).isSome) (i : Int64) :
    charAt h' x i = charAt h x i := by
  rw [charAt, charAt, Heap.text_of_extends hh hx]

/-- **A binary operator is settled.** -/
theorem settled_apply (op : BinaryOp) (ha : a.Valid h) (hb : b.Valid h) :
    Settled (op.apply a b) h := by
  intro h' hh
  -- The texts that the operator reads are in the first heap already.
  have hgrown : h.Extends h' := (op.extends_apply a b h).trans hh
  -- A comparison makes no string, and the other operators are settled by the kinds.
  unfold apply at hh ⊢
  by_cases hop : op.isComparison = true
  · rw [if_pos hop, if_pos hop, compareValues, compareValues,
      Value.compare_of_extends hgrown ha hb]
  · rw [if_neg hop] at hh
    rw [if_neg hop, if_neg hop]
    cases a with
    | int m => cases b <;> rfl
    | bool p => cases b <;> rfl
    | list xs => cases b <;> rfl
    | str x =>
      cases b with
      | str y =>
        dsimp only at hh ⊢
        rw [joined_of_extends hgrown ha hb]
        split at hh
        · next hadd =>
          rw [if_pos hadd, if_pos hadd]
          exact settled_newString h _ h' hh
        · next hadd => rw [if_neg hadd, if_neg hadd]
      | int i =>
        dsimp only at hh ⊢
        rw [charAt_of_extends hgrown ha i]
        split at hh
        · next hindex =>
          rw [if_pos hindex, if_pos hindex]
          exact settled_newString h _ h' hh
        · next hindex => rw [if_neg hindex, if_neg hindex]
      | bool | list => rfl

end BinaryOp

end Operators

mutual
/-- **Evaluating an expression is settled** once it was done, if the heap has given out the handles in
the values of the variables. -/
theorem Expr.settled_eval {h : Heap} (hv : env.Valid h) : ∀ e : Expr,
    Settled (e.eval names env) h
  | .int _ | .bool _ | .var _ => fun _ _ => rfl
  | .str _ => BinaryOp.settled_newString h _
  | .list es => by
    intro h' hh
    -- By how the items end the first time. A failure is found again at the same item.
    have hitems := items_settled_eval hv es h'
    obtain ⟨s, h₁, hr, -⟩ | ⟨vs, h₁, hr, -⟩ := (items_tracks_eval names hv es).cases
    all_goals
      simp only [Expr.eval, hr] at hh hitems ⊢
      rw [hitems hh]
  | .unary op e => by
    intro h' hh
    have hoperand := e.settled_eval hv h'
    obtain ⟨s, h₁, hr, -⟩ | ⟨v, h₁, hr, -, -, hval⟩ := (e.tracks_eval names hv).cases
    · simp only [Expr.eval, hr] at hh hoperand ⊢
      rw [hoperand hh]
    · simp only [Expr.eval, hr] at hh hoperand ⊢
      rw [hoperand hh]
      simp only [op.apply_of_extends hh hval]
  | .binary op l r => by
    intro h' hh
    have hleft := l.settled_eval hv h'
    -- The first operand fails again, before the second one is evaluated.
    obtain ⟨s, h₁, hl, -⟩ | ⟨a, h₁, hl, -, hh₁, ha⟩ := (l.tracks_eval names hv).cases
    · simp only [Expr.eval, hl] at hh hleft ⊢
      rw [hleft hh]
    · -- The later heap has grown from the last heap on the way, and so from each one before it.
      have hright := r.settled_eval (hv.of_extends hh₁) h'
      obtain ⟨s, h₂, hr, -, hh₂⟩ | ⟨b, h₂, hr, -, hh₂, hb⟩ :=
        (r.tracks_eval names (hv.of_extends hh₁)).cases
      · simp only [Expr.eval, hl, hr] at hh hleft hright ⊢
        rw [hleft (hh₂.trans hh)]
        dsimp only
        rw [hright hh]
      · have happly := op.settled_apply (ha.of_extends hh₂) hb h'
        simp only [Expr.eval, hl, hr] at hh hleft hright ⊢
        have hgrown : h₂.Extends h' := (op.extends_apply a b h₂).trans hh
        rw [hleft (hh₂.trans hgrown)]
        dsimp only
        rw [hright hgrown]
        exact happly hh

/-- The items of a list are settled, as each of them is. -/
theorem items_settled_eval {h : Heap} (hv : env.Valid h) : ∀ es : List Expr,
    Settled (evalItems names env es) h
  | [] => fun _ _ => rfl
  | e :: es => by
    intro h' hh
    have hfirst := e.settled_eval hv h'
    obtain ⟨s, h₁, hr, -⟩ | ⟨v, h₁, hr, -, hh₁, -⟩ := (e.tracks_eval names hv).cases
    · simp only [evalItems, hr] at hh hfirst ⊢
      rw [hfirst hh]
    · -- As with a second operand.
      have hrest := items_settled_eval (hv.of_extends hh₁) es h'
      obtain ⟨s, h₂, hs, -, hh₂⟩ | ⟨vs, h₂, hs, -, hh₂, -⟩ :=
        (items_tracks_eval names (hv.of_extends hh₁) es).cases
      · simp only [evalItems, hr, hs] at hh hfirst hrest ⊢
        rw [hfirst (hh₂.trans hh)]
        dsimp only
        rw [hrest hh]
      · simp only [evalItems, hr, hs] at hh hfirst hrest ⊢
        rw [hfirst (hh₂.trans hh)]
        dsimp only
        rw [hrest hh]
end

namespace Machine

/-- **Evaluating an expression again changes nothing.** Whatever it came to the first time, a value or an
error, it comes to in every machine that has the same frames and a heap that has grown since. The
handles are the same, and no string is added. -/
theorem eval_again {m m' m'' : Machine} (hm : m.Valid) {names : Interner} {e : Expr}
    {r : Outcome Value} (heval : m.eval names e = (r, m')) (henv : m''.env = m.env)
    (hheap : m'.heap.Extends m''.heap) : m''.eval names e = (r, m'') := by
  obtain ⟨heap, env, subs, printer, calls, maxCalls, log⟩ := m
  obtain ⟨heap'', env'', subs'', printer'', calls'', maxCalls'', log''⟩ := m''
  cases henv
  cases heval
  -- The second machine differs in its heap, of which all that counts is that it has grown.
  have hagain := e.settled_eval hm heap'' hheap
  simp only [Machine.eval, hagain]

/-- A list that joins a variable to a literal and then fails. The first evaluation has left two strings
behind, and another one has been made since. -/
theorem eval_again_failed :
    let names := Interner.initial
    let x : Name := .empty
    let heap := (Heap.empty.intern "b").2
    let env : Environment := ⟨#[⟨[(x, some (.str ⟨0⟩))], none⟩], #[FrameId.global]⟩
    let m : Machine := { Machine.initial .silent 8 with heap := heap, env := env }
    let e : Expr := .list [.binary .add (.var x) (.str (names.nameOf "print")),
      .binary .div (.int 1) (.int 0)]
    let m' := (m.eval names e).2
    let m'' : Machine := { m' with heap := (m'.heap.intern "c").2 }
    m'.heap.texts = ["b", "print", "bprint"] ∧
      m''.eval names e = (Outcome.fail (.divisionByZero .div), m'') := by
  intro names x heap env m e m' m''
  have hfail : (m.eval names e).1 = Outcome.fail (.divisionByZero .div) := by decide +kernel
  have htexts : m'.heap.texts = ["b", "print", "bprint"] := by decide +kernel
  have hsome : (heap.text? ⟨0⟩).isSome = true := by decide +kernel
  refine ⟨htexts, ?_⟩
  -- From here on it does not matter which texts these are.
  clear_value names heap
  have hvalid : m.Valid := by
    intro f hf y v hv
    obtain rfl : f = ⟨[(x, some (.str ⟨0⟩))], none⟩ := Array.mem_singleton.mp hf
    obtain ⟨⟩ := List.mem_singleton.mp hv
    exact hsome
  clear_value m
  exact eval_again hvalid (congrArg (·, m') hfail) rfl (m'.heap.extends_intern "c")

end Machine

end Silly
