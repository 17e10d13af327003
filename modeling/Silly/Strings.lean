import Silly.RunError

/-!
# Where the texts of strings are

What a string value holds, and where its text is found, is one choice of two. The interpreter's
strings are handles, and their texts are in the heap. But a string can also carry its text itself, and
then there is nothing to store. All that runs programs works with either kind of strings, through the
two operations of `StringStore`, and is said once for both.
-/

namespace Silly

/-- **Strings** of type `σ` whose texts are in a store of type `H`. -/
class StringStore (σ : outParam Type) (H : Type) where
  /-- The string with the given text, which the store may have to be told of. -/
  intern : H → String → σ × H
  /-- The text of a string. -/
  text : H → σ → Outcome String

/-- **Strings in the heap**, known by their handles. -/
instance : StringStore Handle Heap := ⟨Heap.intern, Heap.text⟩

/-- **Strings that carry their texts**, and no store. -/
instance : StringStore String Unit := ⟨fun _ s => (s, ()), fun _ s => .ok s⟩

/-- The string value with the given text. -/
def Value.ofText {σ H : Type} [StringStore σ H] (h : H) (s : String) : Value σ × H :=
  let (x, h) := StringStore.intern h s
  (str x, h)

end Silly
