import Silly.Strings
import Silly.Tree.Display

/-!
# Values as texts

A value is written as the literal that evaluates to it: strings in quotes, and the items of a list
in brackets with one space between each two. What `print` writes is the same, but for a string that
is not in a list, which it writes without its quotes.
-/

namespace Silly.Value

variable {σ H : Type} [StringStore σ H]

mutual
/-- **The value as a literal.** -/
def literal (h : H) : Value σ → Outcome String
  | int n => .ok (Integer.text n)
  | bool b => .ok (boolText b)
  | str s => (StringStore.text h s).map quote
  | list items => (literals h items).map bracket

/-- Each of the values as a literal. -/
def literals (h : H) : List (Value σ) → Outcome (List String)
  | [] => .ok []
  | v :: vs =>
    match v.literal h, literals h vs with
    | .ok s, .ok ss => .ok (s :: ss)
    | .error e, _ | .ok _, .error e => .error e
end

/-- **The value as it is printed.** -/
def printed (h : H) : Value σ → Outcome String
  | str s => StringStore.text h s
  | v => v.literal h

end Silly.Value
