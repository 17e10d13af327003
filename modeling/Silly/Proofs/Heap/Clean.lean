import Silly.Machine.Eval
import Silly.Proofs.Display.WellFormed
import Silly.Proofs.Heap.Value

/-!
# No string holds a quote or a line break

A value is written without any escaping, so its text can be read back only if its strings hold nothing
that ends a literal. The literals of a source do not, as a literal ends with the first quote, and none
goes on in the next line. New strings are made in two ways only, by joining two strings and by taking a
character out of one, and neither brings in a character that was not there before.

So evaluating a well-formed expression keeps the whole heap free of quotes and line breaks
(`Expr.clean_eval`), whatever the variables stand for, and whether it comes to a value or fails on the
way.
-/

namespace Silly

/-! ### Heaps -/

/-- **A heap in which no text holds a quote or a line break.** -/
def Heap.Clean (h : Heap) : Prop := ∀ x s, h.text? x = some s → Unquoted s.toList

variable {h : Heap} {s : String}

theorem unquoted_append {cs cs' : List Char} (hcs : Unquoted cs) (hcs' : Unquoted cs') :
    Unquoted (cs ++ cs') :=
  List.forall_mem_append.mpr ⟨hcs, hcs'⟩

namespace Heap

theorem clean_empty : Clean .empty := by
  intro x s hx
  cases hx

/-- **A text that comes in** leaves the heap clean if it is clean. -/
theorem Clean.intern (hh : h.Clean) (hs : Unquoted s.toList) : (h.intern s).2.Clean := by
  intro x s' hx
  -- A text of the new heap is the one that came in, or it was there.
  obtain rfl | hx : s' = s ∨ h.text? x = some s' := TextTable.eq_or_text?_of_intern hx
  · exact hs
  · exact hh x s' hx

/-- What is read from a clean heap is clean. -/
theorem Clean.text (hh : h.Clean) {x : Handle} (hx : StringStore.text h x = .ok s) :
    Unquoted s.toList := by
  have htext : StringStore.text h x = Outcome.ofOption (.handle x.index) (h.text? x) := rfl
  rw [htext] at hx
  cases hget : h.text? x with
  | none =>
    rw [hget] at hx
    cases hx
  | some s' =>
    rw [hget] at hx
    cases hx
    exact hh x s hget

/-! ### New strings -/

/-- **A new string**, if its text holds no quote and no line break. -/
theorem Clean.newString (hh : h.Clean) {text : Outcome String}
    (htext : ∀ s, text = .ok s → Unquoted s.toList) :
    (BinaryOp.newString h text : Outcome (Value Handle) × Heap).2.Clean := by
  cases text with
  | error e => exact hh
  | ok s => exact hh.intern (htext s rfl)

/-- The characters of two strings that are joined are those of the two. -/
theorem Clean.joined (hh : h.Clean) {x y : Handle} (hs : BinaryOp.joined h x y = .ok s) :
    Unquoted s.toList := by
  unfold BinaryOp.joined at hs
  -- If one of the two texts is missing, nothing is joined.
  cases hx : StringStore.text h x with
  | error e =>
    rw [hx] at hs
    cases hs
  | ok a =>
    cases hy : StringStore.text h y with
    | error e =>
      rw [hx, hy] at hs
      cases hs
    | ok b =>
      rw [hx, hy] at hs
      cases hs
      rw [String.toList_append]
      exact unquoted_append (hh.text hx) (hh.text hy)

/-- A character of a string is one of its characters. -/
theorem Clean.charAt (hh : h.Clean) {x : Handle} {i : Int64}
    (hs : BinaryOp.charAt h x i = .ok s) : Unquoted s.toList := by
  unfold BinaryOp.charAt at hs
  cases hx : StringStore.text h x with
  | error e =>
    rw [hx] at hs
    cases hs
  | ok a =>
    rw [hx] at hs
    dsimp only [Except.bind] at hs
    -- An index out of range gives no text. Any other one gives a character that is in the string.
    obtain ⟨n, hn, -, hitem⟩ | ⟨hfail, -⟩ := itemAt_cases a.toList i
    · rw [hitem] at hs
      cases hs
      intro d hd
      obtain rfl : d = a.toList.get ⟨n, hn⟩ := by simpa [Char.toString] using hd
      exact hh.text hx _ (List.get_mem _ _)
    · rw [hfail] at hs
      cases hs

end Heap

/-! ### Evaluation -/

/-- **An operator** makes clean strings of clean strings. -/
theorem BinaryOp.clean_apply (op : BinaryOp) (a b : Value) (hh : h.Clean) :
    (op.apply a b h).2.Clean := by
  unfold apply
  by_cases hop : op.isComparison = true
  · rw [if_pos hop]
    exact hh
  · rw [if_neg hop]
    -- By the two kinds, as the operator does; the heap stays as it is for most of them.
    cases a with
    | int m => cases b <;> exact hh
    | bool p => cases b <;> exact hh
    | str x =>
      cases b with
      | str y =>
        dsimp only
        split
        · exact hh.newString fun s hs => hh.joined hs
        · exact hh
      | int i =>
        dsimp only
        split
        · exact hh.newString fun s hs => hh.charAt hs
        · exact hh
      | bool | list => exact hh
    | list xs => cases b <;> exact hh

variable {names : Interner} {env : Environment}

/-- The text of a literal. -/
theorem Interner.IsContents.of_resolve {x : Name} (hx : names.IsContents x)
    (hs : names.resolve x = .ok s) : Unquoted s.toList := by
  obtain ⟨s', hx', hs'⟩ := hx
  rw [Interner.resolve, hx'] at hs
  cases hs
  exact hs'

mutual
/-- **Evaluating a well-formed expression keeps the heap clean.** -/
theorem Expr.clean_eval {h : Heap} (hh : h.Clean) : ∀ e : Expr, e.WellFormed names →
    (e.eval names env h).2.Clean
  | .int _, _ | .bool _, _ | .var _, _ => hh
  | .str _, he => hh.newString fun s hs => he.of_resolve hs
  -- The items have left the heap clean, and the list itself makes no string.
  | .list es, he => by
    have hitems := items_clean_eval hh es he
    rw [Expr.eval]
    revert hitems
    obtain ⟨s | vs, h'⟩ := evalItems names env es h <;> exact id
  | .unary op e, he => by
    have hoperand := e.clean_eval hh he
    rw [Expr.eval]
    revert hoperand
    obtain ⟨s | v, h'⟩ := e.eval names env h <;> exact id
  -- The second operand begins in the heap that the first one has left.
  | .binary op l r, he => by
    have hleft := l.clean_eval hh he.1
    rw [Expr.eval]
    revert hleft
    obtain ⟨s | v, h'⟩ := l.eval names env h
    · exact id
    · intro hleft
      have hright := r.clean_eval hleft he.2
      dsimp only
      revert hright
      obtain ⟨s | w, h''⟩ := r.eval names env h'
      · exact id
      · exact fun hright => op.clean_apply v w hright

/-- The items of a list, one after the other. -/
theorem items_clean_eval {h : Heap} (hh : h.Clean) : ∀ es : List Expr, itemsWellFormed names es →
    (evalItems names env es h).2.Clean
  | [], _ => hh
  | e :: es, he => by
    have hfirst := e.clean_eval hh he.1
    rw [evalItems]
    revert hfirst
    obtain ⟨s | v, h'⟩ := e.eval names env h
    · exact id
    · intro hfirst
      have hrest := items_clean_eval hfirst es he.2
      dsimp only
      revert hrest
      obtain ⟨s | vs, h''⟩ := evalItems names env es h' <;> exact id
end

end Silly
