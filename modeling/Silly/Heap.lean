import Silly.Text.Table

/-!
# The heap of strings

A string value holds a handle and not a text. The texts are in the heap, which holds each text
once and never gives one up, so two string values are the same string exactly when their handles
are equal.
-/

namespace Silly

/-- The number of a text in the heap. -/
structure Handle where
  index : Nat
  deriving DecidableEq

/-- **The heap of strings**: a table of the texts that string values have had. -/
structure Heap where
  table : TextTable

namespace Heap

/-- The heap that a run starts with. -/
def empty : Heap := ⟨.empty⟩

/-- The handle of a text, which enters the heap if it is new. -/
def intern (h : Heap) (s : String) : Handle × Heap :=
  let (i, table) := h.table.intern s
  (⟨i⟩, ⟨table⟩)

/-- The text of a handle, if the heap has given out that handle. -/
def text? (h : Heap) (s : Handle) : Option String := h.table.text? s.index

/-- How many distinct texts the heap holds. -/
def size (h : Heap) : Nat := h.table.size

def isEmpty (h : Heap) : Bool := h.size = 0

end Heap

end Silly
