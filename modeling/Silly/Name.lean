import Silly.Text.Table
import Silly.Token.Keyword

/-!
# Names

A tree and a token hold the number of a text and not the text: a `Name`. The texts are in an
`Interner`, a table that starts with the empty text and the words of the language, so that these
have the same numbers everywhere.
-/

namespace Silly

/-- The number of a text in a table of names. -/
structure Name where
  index : Nat
  deriving DecidableEq

namespace Name

/-- The name of the empty text. -/
def empty : Name := ⟨0⟩

/-- Names are ordered as they were given out. -/
def compare (a b : Name) : Ordering := Ord.compare a.index b.index

end Name

/-- **A table of names.** -/
structure Interner where
  table : TextTable

namespace Interner

/-- The texts that every table of names starts with: the empty text and the language's words. -/
def initialTexts : List String :=
  "" :: (StatementKeyword.all.map (·.text) ++ Keyword.all.map (·.text))

/-- The table of names that a program starts with. -/
def initial : Interner := ⟨TextTable.empty.internAll initialTexts⟩

/-- **The name of a text**, which is new if the text is. -/
def intern (names : Interner) (s : String) : Name × Interner :=
  let (i, table) := names.table.intern s
  (⟨i⟩, ⟨table⟩)

/-- The text of a name, if the table has given out that name. -/
def text? (names : Interner) (n : Name) : Option String := names.table.text? n.index

/-- The text of a name that the table has given out. -/
def text (names : Interner) (n : Name) : String := (names.text? n).getD ""

/-- How many texts the table holds. -/
def size (names : Interner) : Nat := names.table.size

/-- A table that holds no text but the empty one counts as empty. -/
def isEmpty (names : Interner) : Bool := names.size ≤ 1

end Interner

end Silly
