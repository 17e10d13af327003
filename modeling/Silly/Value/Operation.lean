import Silly.Value.Order

/-!
# The operators on values

What each operator does to values that have been computed already. Which operands an operator
accepts is told from the operator and the two kinds, and everything else is a type mismatch:

* the comparisons take two values of one kind;
* `&` and `|` take two booleans;
* `+` adds integers and joins strings or lists;
* `*`, `/`, `%` and `^` take integers;
* `@` takes a string or a list and the place of a character or an item in it, counted from zero;
* `!` takes a boolean, and `#` takes a string or a list.

Only joining and indexing make new strings, so only they can change the store.
-/

namespace Silly

/-- An arithmetic failure as an error of the operator at which it arose. -/
def ArithmeticError.at (op : BinaryOp) : ArithmeticError → RunError
  | divisionByZero => .divisionByZero op
  | overflow => .integerOverflow (.binary op)

variable {σ H : Type} [StringStore σ H]

/-- The length of something as a value. -/
def lengthValue (n : Nat) : Outcome (Value σ) :=
  (Integer.exactly? n).elim (Outcome.fail (.integerOverflow (.unary .len))) fun n => .ok (.int n)

/-- **A unary operator applied to a value.** -/
def UnaryOp.apply (h : H) : UnaryOp → Value σ → Outcome (Value σ)
  | .not, .bool b => .ok (.bool !b)
  | .len, .str s => (StringStore.text h s).bind fun t => lengthValue t.length
  | .len, .list items => lengthValue items.length
  | op, v => Outcome.fail (.typeMismatch (.operator (.unary op)) [v.kind])

/-- **The check of an index**: which place it is among so many, counted from zero. -/
def checkedIndex (i : Int64) (length : Nat) : Outcome Nat :=
  if 0 ≤ i.toInt ∧ i.toInt.toNat < length then .ok i.toInt.toNat
  else Outcome.fail (.indexOutOfRange i length)

/-- What stands at a place of a list, which has to have that place. -/
def itemOf {α : Type} (xs : List α) (n : Nat) : Outcome α := Outcome.ofOption (.item n) xs[n]?

/-- **What stands at place `i` of a list.** The index is checked before the list is read. -/
def itemAt {α : Type} (xs : List α) (i : Int64) : Outcome α :=
  (checkedIndex i xs.length).bind (itemOf xs)

section
variable {α β : Type}

/-- An index is checked to be in range, or no place is the one that it says. -/
theorem checkedIndex_cases (i : Int64) (length : Nat) :
    (∃ n, n < length ∧ (n : Int) = i.toInt ∧ checkedIndex i length = .ok n) ∨
      (checkedIndex i length = Outcome.fail (.indexOutOfRange i length) ∧
        ∀ n : Nat, (n : Int) = i.toInt → length ≤ n) := by
  by_cases hi : 0 ≤ i.toInt ∧ i.toInt.toNat < length
  · exact .inl ⟨i.toInt.toNat, hi.2, Int.toNat_of_nonneg hi.1, if_pos hi⟩
  · exact .inr ⟨if_neg hi, fun n hn => by omega⟩

theorem itemOf_of_lt {xs : List α} {n : Nat} (h : n < xs.length) : itemOf xs n = .ok xs[n] := by
  rw [itemOf, List.getElem?_eq_getElem h]
  rfl

/-- **A checked index is never out of range**: an item of a list is taken from a place that the list has. -/
theorem itemAt_cases (xs : List α) (i : Int64) :
    (∃ (n : Nat) (h : n < xs.length), (n : Int) = i.toInt ∧ itemAt xs i = .ok (xs.get ⟨n, h⟩)) ∨
      (itemAt xs i = Outcome.fail (.indexOutOfRange i xs.length) ∧
        ∀ n : Nat, (n : Int) = i.toInt → xs.length ≤ n) := by
  unfold itemAt
  obtain ⟨n, hn, hi, hcheck⟩ | ⟨hcheck, hout⟩ := checkedIndex_cases i xs.length
  · rw [hcheck]
    exact .inl ⟨n, hn, hi, itemOf_of_lt hn⟩
  · rw [hcheck]
    exact .inr ⟨rfl, hout⟩

/-- Lists of one length have the same places, so a function may be applied before or after. -/
theorem itemAt_map (f : α → β) (xs : List α) (i : Int64) :
    itemAt (xs.map f) i = (itemAt xs i).map f := by
  unfold itemAt
  rw [List.length_map]
  obtain ⟨n, hn, -, hcheck⟩ | ⟨hcheck, -⟩ := checkedIndex_cases i xs.length
  · have hmap : itemOf (xs.map f) n = .ok (f xs[n]) := by
      rw [itemOf_of_lt (by rwa [List.length_map]), List.getElem_map]
    rw [hcheck]
    exact hmap.trans (congrArg (Except.map f) (itemOf_of_lt hn)).symm
  · rw [hcheck]
    rfl

end

namespace BinaryOp

/-- The operator does not take these values. -/
def mismatch (op : BinaryOp) (a b : Value σ) : Outcome (Value σ) :=
  Outcome.fail (.typeMismatch (.operator (.binary op)) [a.kind, b.kind])

/-- Whether a comparison holds of two values, by their order. -/
def holds : BinaryOp → Ordering → Bool
  | eq, o => o = .eq
  | notEq, o => o ≠ .eq
  | gt, o => o = .gt
  | lt, o => o = .lt
  | _, _ => false

/-- **A comparison.** Values of different kinds are a mismatch of the operator itself; a mismatch
inside two lists is one of the comparison of their items. -/
def compareValues (op : BinaryOp) (h : H) (a b : Value σ) : Outcome (Value σ) :=
  if a.kind = b.kind then (a.compare h b).map fun o => .bool (op.holds o) else op.mismatch a b

/-- What came of a computation with integers, as the operator's. -/
def computed (op : BinaryOp) : Except ArithmeticError Int64 → Outcome (Value σ)
  | .ok n => .ok (.int n)
  | .error e => Outcome.fail (e.at op)

/-- The operators on two integers. -/
def integers (op : BinaryOp) (a b : Int64) : Outcome (Value σ) :=
  match op with
  | add => op.computed (Integer.add a b)
  | mul => op.computed (Integer.mul a b)
  | div => op.computed (Integer.quotient a b)
  | mod => op.computed (Integer.remainder a b)
  | pow => op.computed (Integer.power a b)
  | _ => op.mismatch (.int a) (.int b)

/-- The operators on two booleans. -/
def booleans (op : BinaryOp) (a b : Bool) : Outcome (Value σ) :=
  match op with
  | and => .ok (.bool (a && b))
  | or => .ok (.bool (a || b))
  | _ => op.mismatch (.bool a) (.bool b)

/-- A string computed from texts of the store, which enters the store. -/
def newString (h : H) (text : Outcome String) : Outcome (Value σ) × H :=
  match text with
  | .ok s =>
    let (v, h) := Value.ofText h s
    (.ok v, h)
  | .error e => (.error e, h)

/-- The text of two strings joined. -/
def joined (h : H) (s t : σ) : Outcome String :=
  match StringStore.text h s, StringStore.text h t with
  | .ok s, .ok t => .ok (s ++ t)
  | .error e, _ | .ok _, .error e => .error e

/-- The character at place `i` of a string, as a text. -/
def charAt (h : H) (s : σ) (i : Int64) : Outcome String :=
  (StringStore.text h s).bind fun t => (itemAt t.toList i).map (·.toString)

/-- **A binary operator applied to two values.** -/
def apply (op : BinaryOp) (a b : Value σ) (h : H) : Outcome (Value σ) × H :=
  if op.isComparison then (op.compareValues h a b, h)
  else
    match a, b with
    | .int m, .int n => (op.integers m n, h)
    | .bool p, .bool q => (op.booleans p q, h)
    | .str s, .str t => if op = add then newString h (joined h s t) else (op.mismatch a b, h)
    | .list xs, .list ys => (if op = add then .ok (.list (xs ++ ys)) else op.mismatch a b, h)
    | .str s, .int i => if op = index then newString h (charAt h s i) else (op.mismatch a b, h)
    | .list xs, .int i => (if op = index then itemAt xs i else op.mismatch a b, h)
    | _, _ => (op.mismatch a b, h)

end BinaryOp

end Silly
