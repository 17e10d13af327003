/-!
# Classes of characters as lists of ranges

The Unicode standard gives each of its properties as a list of ranges of code points. A class of
characters is kept here in the same form: a list of pairs `(first, last)`, both ends included, in
increasing order. A character belongs to the class when its code point lies in one of the pairs
(`Ranges.has_iff`), so a statement about a class is a statement about a concrete finite list.
-/

namespace Silly

/-- A class of characters: ranges of code points, each with both its ends. -/
abbrev Ranges := List (Nat × Nat)

/-- **Membership.** The character `c` belongs to the class `rs` when one of the ranges holds its
code point. -/
def Ranges.has (rs : Ranges) (c : Char) : Bool :=
  rs.any fun r => r.1 ≤ c.toNat && c.toNat ≤ r.2

theorem Ranges.has_iff {rs : Ranges} {c : Char} :
    rs.has c = true ↔ ∃ r ∈ rs, r.1 ≤ c.toNat ∧ c.toNat ≤ r.2 := by
  simp [Ranges.has]

end Silly
