import Silly.Machine.Eval
import Silly.Proofs.Tree.Names
import Silly.Value.Display

/-!
# What may stop a computation

Computing with values can fail in few ways: a value is of the wrong kind, a divisor is zero, an index
is out of range, or a number does not fit. All other failures of an expression come from elsewhere,
from the texts of its strings, from its names and from its variables. So where these come to nothing
but what `P` allows, the whole expression comes to nothing else, as long as `P` allows the failures of
values (`Expr.raises_eval`). What `P` is does not matter: the strings and the store are left open too.
-/

namespace Silly

/-- **A computation is stopped by nothing but what `P` allows.** -/
def Raises (P : Stop → Prop) {α : Type} (r : Outcome α) : Prop := ∀ s, r = .error s → P s

/-- The failures of computing with values. -/
def RunError.OfValues : RunError → Prop
  | typeMismatch .. | divisionByZero _ | indexOutOfRange .. | integerOverflow _ => True
  | _ => False

section Raises

variable {α β : Type} {P : Stop → Prop} {r : Outcome α} {s : Stop}

theorem raises_ok (a : α) : Raises P (.ok a : Outcome α) := nofun

theorem raises_error (h : P s) : Raises P (.error s : Outcome α) := by
  intro s' hs
  cases hs
  exact h

theorem Raises.of_error (h : Raises P (.error s : Outcome α)) : P s := h s rfl

/-- What comes after a computation may be stopped as well. -/
theorem Raises.bind {f : α → Outcome β} (h : Raises P r) (hf : ∀ a, Raises P (f a)) :
    Raises P (r.bind f) := by
  cases r with
  | error s => exact raises_error h.of_error
  | ok a => exact hf a

theorem Raises.map (h : Raises P r) (f : α → β) : Raises P (r.map f) := by
  cases r with
  | error s => exact raises_error h.of_error
  | ok a => exact raises_ok (f a)

end Raises

section Values

variable {σ H : Type} [StringStore σ H] {P : Stop → Prop}

/-! ### Values -/

namespace Value

mutual
/-- **A comparison** is stopped by a difference in kind, or by a text that is not found. -/
theorem raises_compare (hP : ∀ e : RunError, e.OfValues → P (.error e))
    (htext : ∀ (h : H) (x : σ), Raises P (StringStore.text h x)) (h : H) :
    ∀ v w : Value σ, Raises P (v.compare h w)
  | int _, int _ | bool _, bool _ => by simp only [compare]; exact raises_ok _
  | str x, str y => by
    have hx := htext h x
    have hy := htext h y
    simp only [compare]
    revert hx hy
    cases StringStore.text h x with
    | error s => exact fun hx _ => raises_error hx.of_error
    | ok t =>
      cases StringStore.text h y with
      | error s => exact fun _ hy => raises_error hy.of_error
      | ok u => exact fun _ _ => raises_ok _
  | list vs, list ws => by simp only [compare]; exact raises_compareItems hP htext h vs ws
  | int _, str _ | int _, bool _ | int _, list _
  | str _, int _ | str _, bool _ | str _, list _
  | bool _, int _ | bool _, str _ | bool _, list _
  | list _, int _ | list _, str _ | list _, bool _ => by
    simp only [compare]
    exact raises_error (hP _ trivial)

/-- So is a comparison of lists, at some item. -/
theorem raises_compareItems (hP : ∀ e : RunError, e.OfValues → P (.error e))
    (htext : ∀ (h : H) (x : σ), Raises P (StringStore.text h x)) (h : H) :
    ∀ vs ws : List (Value σ), Raises P (compareItems h vs ws)
  | [], [] | [], _ :: _ | _ :: _, [] => by simp only [compareItems]; exact raises_ok _
  | v :: vs, w :: ws => by
    have hvw := raises_compare hP htext h v w
    simp only [compareItems]
    revert hvw
    cases v.compare h w with
    | error s => exact id
    | ok o =>
      -- Only items that are equal leave it to the rest.
      cases o with
      | eq => exact fun _ => raises_compareItems hP htext h vs ws
      | lt | gt => exact fun _ => raises_ok _
end

mutual
/-- **The text of a value** is stopped only by a text that is not found. -/
theorem raises_literal (htext : ∀ (h : H) (x : σ), Raises P (StringStore.text h x)) (h : H) :
    ∀ v : Value σ, Raises P (v.literal h)
  | int _ | bool _ => by simp only [literal]; exact raises_ok _
  | str x => by
    simp only [literal]
    exact (htext h x).map quote
  | list vs => by
    simp only [literal]
    exact (raises_literals htext h vs).map bracket

/-- So are the texts of the items of a list. -/
theorem raises_literals (htext : ∀ (h : H) (x : σ), Raises P (StringStore.text h x)) (h : H) :
    ∀ vs : List (Value σ), Raises P (literals h vs)
  | [] => by simp only [literals]; exact raises_ok _
  | v :: vs => by
    have hv := raises_literal htext h v
    have hvs := raises_literals htext h vs
    simp only [literals]
    revert hv hvs
    cases v.literal h with
    | error s => exact fun hv _ => raises_error hv.of_error
    | ok t =>
      cases literals h vs with
      | error s => exact fun _ hvs => raises_error hvs.of_error
      | ok ts => exact fun _ _ => raises_ok _
end

theorem raises_printed (htext : ∀ (h : H) (x : σ), Raises P (StringStore.text h x)) (h : H)
    (v : Value σ) : Raises P (v.printed h) := by
  cases v with
  | str x => exact htext h x
  | int | bool | list => exact raises_literal htext h _

theorem raises_toBool (hP : ∀ e : RunError, e.OfValues → P (.error e)) (operation : Operation)
    (v : Value σ) : Raises P (v.toBool operation) := by
  cases v with
  | bool b => exact raises_ok b
  | _ => exact raises_error (hP _ trivial)

theorem raises_toInt (hP : ∀ e : RunError, e.OfValues → P (.error e)) (operation : Operation)
    (v : Value σ) : Raises P (v.toInt operation) := by
  cases v with
  | int n => exact raises_ok n
  | _ => exact raises_error (hP _ trivial)

end Value

/-! ### Operators -/

section Operators

variable (hP : ∀ e : RunError, e.OfValues → P (.error e))
  (htext : ∀ (h : H) (x : σ), Raises P (StringStore.text h x))

include hP

theorem raises_lengthValue (n : Nat) : Raises P (lengthValue n : Outcome (Value σ)) := by
  rw [lengthValue]
  cases Integer.exactly? n with
  | some m => exact raises_ok _
  | none => exact raises_error (hP _ trivial)

/-- An index that is out of range is a failure of values. -/
theorem raises_itemAt {α : Type} (xs : List α) (i : Int64) : Raises P (itemAt xs i) := by
  obtain ⟨n, hn, -, hitem⟩ | ⟨hfail, -⟩ := itemAt_cases xs i
  · rw [hitem]
    exact raises_ok _
  · rw [hfail]
    exact raises_error (hP _ trivial)

include htext in
/-- **A unary operator** is stopped by the kind of its value, by a length, or by a text that is not
found. -/
theorem UnaryOp.raises_apply (op : UnaryOp) (h : H) (v : Value σ) : Raises P (op.apply h v) := by
  cases op with
  | not =>
    cases v with
    | bool b => exact raises_ok _
    | _ => exact raises_error (hP _ trivial)
  | len =>
    cases v with
    | str x => exact (htext h x).bind fun t => raises_lengthValue hP t.length
    | list items => exact raises_lengthValue hP items.length
    | int | bool => exact raises_error (hP _ trivial)

namespace BinaryOp

variable (op : BinaryOp)

theorem raises_mismatch (v w : Value σ) : Raises P (op.mismatch v w) :=
  raises_error (hP _ trivial)

theorem raises_computed (r : Except ArithmeticError Int64) :
    Raises P (op.computed r : Outcome (Value σ)) := by
  cases r with
  | ok n => exact raises_ok _
  | error e => cases e <;> exact raises_error (hP _ trivial)

theorem raises_integers (m n : Int64) : Raises P (op.integers m n : Outcome (Value σ)) := by
  cases op with
  | add | mul | div | mod | pow => exact raises_computed hP _ _
  | _ => exact raises_mismatch hP _ _ _

theorem raises_booleans (p q : Bool) : Raises P (op.booleans p q : Outcome (Value σ)) := by
  cases op with
  | and | or => exact raises_ok _
  | _ => exact raises_mismatch hP _ _ _

omit hP in
theorem raises_newString {text : Outcome String} (h : H) (ht : Raises P text) :
    Raises P (newString h text : Outcome (Value σ) × H).1 := by
  cases text with
  | error s => exact raises_error ht.of_error
  | ok t => exact raises_ok _

omit hP in
include htext in
/-- Two strings that are joined are stopped if a text is not found. -/
theorem raises_joined (h : H) (x y : σ) : Raises P (joined h x y) := by
  have hx := htext h x
  have hy := htext h y
  unfold joined
  revert hx hy
  cases StringStore.text h x with
  | error s => exact fun hx _ => raises_error hx.of_error
  | ok t =>
    cases StringStore.text h y with
    | error s => exact fun _ hy => raises_error hy.of_error
    | ok u => exact fun _ _ => raises_ok _

include htext in
theorem raises_charAt (h : H) (x : σ) (i : Int64) : Raises P (charAt h x i) :=
  (htext h x).bind fun t => (raises_itemAt hP t.toList i).map _

include htext in
/-- **An operator** is stopped by what its values are, and by a text that is not found. -/
theorem raises_apply (v w : Value σ) (h : H) : Raises P (op.apply v w h).1 := by
  unfold apply
  by_cases hop : op.isComparison = true
  -- A comparison is stopped if the kinds differ, at the top or inside of lists.
  · rw [if_pos hop]
    simp only [compareValues]
    split
    · exact (Value.raises_compare hP htext h v w).map _
    · exact op.raises_mismatch hP v w
  · rw [if_neg hop]
    -- By the two kinds, as the operator does; most pairs of kinds are a mismatch.
    cases v with
    | int m =>
      cases w with
      | int n => exact op.raises_integers hP m n
      | str | bool | list => exact op.raises_mismatch hP _ _
    | bool p =>
      cases w with
      | bool q => exact op.raises_booleans hP p q
      | int | str | list => exact op.raises_mismatch hP _ _
    | str x =>
      cases w with
      | str y =>
        dsimp only
        split
        · exact raises_newString h (raises_joined htext h x y)
        · exact op.raises_mismatch hP _ _
      | int i =>
        dsimp only
        split
        · exact raises_newString h (raises_charAt hP htext h x i)
        · exact op.raises_mismatch hP _ _
      | bool | list => exact op.raises_mismatch hP _ _
    | list xs =>
      cases w with
      | list ys =>
        dsimp only
        split
        · exact raises_ok _
        · exact op.raises_mismatch hP _ _
      | int i =>
        dsimp only
        split
        · exact raises_itemAt hP xs i
        · exact op.raises_mismatch hP _ _
      | str | bool => exact op.raises_mismatch hP _ _

end BinaryOp

end Operators

/-! ### Expressions -/

section Expressions

variable {names : Interner} {env : Environment (Value σ)}

mutual
/-- **An expression** is stopped by its values, its texts and its variables. -/
theorem Expr.raises_eval (hP : ∀ e : RunError, e.OfValues → P (.error e))
    (htext : ∀ (h : H) (x : σ), Raises P (StringStore.text h x)) : ∀ e : Expr,
    (∀ x ∈ e.texts, Raises P (names.resolve x)) →
    (∀ x ∈ e.vars, Raises P ((env.lookup x).outcome names)) →
    ∀ h : H, Raises P (e.eval names env h).1
  | .int _, _, _, _ | .bool _, _, _, _ => raises_ok _
  | .str x, htexts, _, h => BinaryOp.raises_newString h (htexts x List.mem_cons_self)
  | .var x, _, hvars, _ => hvars x List.mem_cons_self
  | .list es, htexts, hvars, h => by
    have hitems := items_raises_eval hP htext es htexts hvars h
    simp only [Expr.eval]
    revert hitems
    obtain ⟨s | vs, h'⟩ := evalItems names env es h
    · exact fun hitems => raises_error hitems.of_error
    · exact fun _ => raises_ok _
  | .unary op e, htexts, hvars, h => by
    have hoperand := e.raises_eval hP htext htexts hvars h
    simp only [Expr.eval]
    revert hoperand
    obtain ⟨s | v, h'⟩ := e.eval names env h
    · exact id
    · exact fun _ => op.raises_apply hP htext h' v
  | .binary op l r, htexts, hvars, h => by
    -- The names and the variables of the whole are those of the two operands.
    obtain ⟨hltexts, hrtexts⟩ := List.forall_mem_append.mp htexts
    obtain ⟨hlvars, hrvars⟩ := List.forall_mem_append.mp hvars
    have hleft := l.raises_eval hP htext hltexts hlvars h
    simp only [Expr.eval]
    revert hleft
    obtain ⟨s | v, h'⟩ := l.eval names env h
    · exact id
    · have hright := r.raises_eval hP htext hrtexts hrvars h'
      dsimp only
      revert hright
      obtain ⟨s | w, h''⟩ := r.eval names env h'
      · exact fun hright _ => hright
      · exact fun _ _ => op.raises_apply hP htext v w h''

/-- The items of a list, of which the first failure stops the others. -/
theorem items_raises_eval (hP : ∀ e : RunError, e.OfValues → P (.error e))
    (htext : ∀ (h : H) (x : σ), Raises P (StringStore.text h x)) : ∀ es : List Expr,
    (∀ x ∈ itemsTexts es, Raises P (names.resolve x)) →
    (∀ x ∈ itemsVars es, Raises P ((env.lookup x).outcome names)) →
    ∀ h : H, Raises P (evalItems names env es h).1
  | [], _, _, _ => raises_ok _
  | e :: es, htexts, hvars, h => by
    obtain ⟨hetexts, hestexts⟩ := List.forall_mem_append.mp htexts
    obtain ⟨hevars, hesvars⟩ := List.forall_mem_append.mp hvars
    have hfirst := e.raises_eval hP htext hetexts hevars h
    simp only [evalItems]
    revert hfirst
    obtain ⟨s | v, h'⟩ := e.eval names env h
    · exact fun hfirst => raises_error hfirst.of_error
    · have hrest := items_raises_eval hP htext es hestexts hesvars h'
      dsimp only
      revert hrest
      obtain ⟨s | vs, h''⟩ := evalItems names env es h'
      · exact fun hrest _ => raises_error hrest.of_error
      · exact fun _ _ => raises_ok _
end

/-- **An expression that is alike to another one**, which says of its names that `R` relates them to
some. -/
theorem ExprAlike.raises {R : Name → Name → Prop}
    (hP : ∀ e : RunError, e.OfValues → P (.error e))
    (htext : ∀ (h : H) (x : σ), Raises P (StringStore.text h x))
    (hnames : ∀ x x', R x x' → Raises P (names.resolve x))
    (hlookup : ∀ x x', R x x' → Raises P ((env.lookup x).outcome names)) {e e' : Expr}
    (he : ExprAlike R e e') (h : H) : Raises P (e.eval names env h).1 := by
  refine e.raises_eval hP htext (fun x hx => ?_) (fun x hx => ?_) h
  -- Each name of the expression is related to one, so what is known of related names is known of it.
  · obtain ⟨x', hR⟩ := he.exists_of_mem_texts hx
    exact hnames x x' hR
  · obtain ⟨x', hR⟩ := he.exists_of_mem_vars hx
    exact hlookup x x' hR

end Expressions

end Values

/-! ### What is missing

Nothing but a fault stops a computation that looks something up. -/

section Faults

variable {P : Stop → Prop} (hP : ∀ f : Fault, P (.fault f))

include hP

theorem raises_ofOption {α : Type} (f : Fault) (a : Option α) : Raises P (Outcome.ofOption f a) := by
  cases a with
  | some a => exact raises_ok a
  | none => exact raises_error (hP f)

theorem raises_resolve (names : Interner) (x : Name) : Raises P (names.resolve x) :=
  raises_ofOption hP _ _

theorem raises_text (h : Heap) (x : Handle) : Raises P (StringStore.text h x) :=
  raises_ofOption hP _ (h.text? x)

end Faults

end Silly
