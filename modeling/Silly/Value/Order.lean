import Silly.Strings

/-!
# The order of values

Values of one kind are ordered: integers by size, strings by their characters' code points, `false`
before `true`, and lists item by item, with a list before its extensions. Values of different kinds
are not, and a comparison of lists fails at the first place where their items differ in kind unless
the lists have been told apart before it.
-/

namespace Silly.Value

variable {σ H : Type} [StringStore σ H]

mutual
/-- **The order of two values**, or a type mismatch if they differ in kind. -/
def compare (h : H) : Value σ → Value σ → Outcome Ordering
  | int a, int b => .ok (Ord.compare a.toInt b.toInt)
  | str a, str b =>
    match StringStore.text h a, StringStore.text h b with
    | .ok s, .ok t => .ok (Ord.compare s t)
    | .error e, _ | .ok _, .error e => .error e
  | bool a, bool b => .ok (Ord.compare a b)
  | list as, list bs => compareItems h as bs
  | a, b => Outcome.fail (.typeMismatch .comparison [a.kind, b.kind])

/-- The order of two lists of values: that of the first two items that differ, and otherwise that
of the lengths. -/
def compareItems (h : H) : List (Value σ) → List (Value σ) → Outcome Ordering
  | [], [] => .ok .eq
  | [], _ :: _ => .ok .lt
  | _ :: _, [] => .ok .gt
  | a :: as, b :: bs =>
    match a.compare h b with
    | .ok .eq => compareItems h as bs
    | unequal => unequal
end

end Silly.Value
