import Std.Data.TreeMap.Lemmas

/-!
# Tables of distinct texts

A table numbers texts by first appearance. It is kept twice over, once for each direction in which
it is read: `texts` lists the texts by number, and `index` finds the number of a text. That the two
agree is part of what a table is, so no text can be in one twice. Adding is the only way to change a
table, and adding a text that is already there changes nothing, so a number once given out names the
same text for good.

The names of a program (`Silly.Interner`) and the strings of a run (`Silly.Heap`) are both such
tables.
-/

namespace Silly

/-- Whether a list of texts and an index of numbers are inverse to each other. -/
def TextTable.Agree (texts : Array String) (index : Std.TreeMap String Nat) : Prop :=
  ∀ (s : String) (i : Nat), index[s]? = some i ↔ texts[i]? = some s

/-- **A table of distinct texts**, numbered from zero in the order of their first appearance. -/
structure TextTable where
  /-- The texts by number. -/
  texts : Array String
  /-- The number of each text. -/
  index : Std.TreeMap String Nat
  agree : TextTable.Agree texts index

namespace TextTable

theorem agree_empty : Agree #[] ∅ := by simp [Agree]

/-- A new text takes the first free number, at which there was nothing before. -/
theorem Agree.push {texts : Array String} {index : Std.TreeMap String Nat} {s : String}
    (h : Agree texts index) (hs : index[s]? = none) :
    Agree (texts.push s) (index.insert s texts.size) := by
  intro s' i
  have hcompare : compare s s' = .eq ↔ s' = s :=
    Std.LawfulEqCmp.compare_eq_iff_eq.trans eq_comm
  simp only [Std.TreeMap.getElem?_insert, hcompare, Array.getElem?_push]
  by_cases hi : i = texts.size
  · subst hi
    rw [if_pos rfl]
    split
    · next hs' => simp [hs']
    · next hs' =>
      rw [h s' _, Array.getElem?_eq_none (Nat.le_refl _)]
      simp [Ne.symm hs']
  · rw [if_neg hi]
    split
    · next hs' =>
      subst hs'
      rw [← h s' i, hs]
      simp [Ne.symm hi]
    · exact h s' i

/-- The table that holds nothing. -/
def empty : TextTable := ⟨#[], ∅, agree_empty⟩

/-- How many distinct texts the table holds. -/
def size (t : TextTable) : Nat := t.texts.size

/-- The text with the given number, if the table has given out that number. -/
def text? (t : TextTable) (i : Nat) : Option String := t.texts[i]?

/-- **Adding a text.** The answer is the text's number: the old one if the text was there, and
otherwise the next free one. Numbers are not bounded here. The tables of the interpreter keep them in 32
bits and give up where the next one does not fit, so it is assumed that a table is given fewer than
`2 ^ 32` distinct texts. -/
def intern (t : TextTable) (s : String) : Nat × TextTable :=
  match h : t.index[s]? with
  | some i => (i, t)
  | none => (t.texts.size, ⟨t.texts.push s, t.index.insert s t.texts.size, t.agree.push h⟩)

/-- A list of texts added one after another. -/
def internAll (t : TextTable) (ss : List String) : TextTable :=
  ss.foldl (fun t s => (t.intern s).2) t

@[simp] theorem internAll_nil (t : TextTable) : t.internAll [] = t := rfl

@[simp] theorem internAll_cons (t : TextTable) (s : String) (ss : List String) :
    t.internAll (s :: ss) = (t.intern s).2.internAll ss := rfl

theorem internAll_append (t : TextTable) (ss ss' : List String) :
    t.internAll (ss ++ ss') = (t.internAll ss).internAll ss' := List.foldl_append

theorem intern_of_some {t : TextTable} {s : String} {i : Nat} (h : t.index[s]? = some i) :
    t.intern s = (i, t) := by
  unfold intern
  split
  · next h' => rw [Option.some.inj (h'.symm.trans h)]
  · next h' => simp [h] at h'

theorem intern_of_none {t : TextTable} {s : String} (h : t.index[s]? = none) :
    t.intern s =
      (t.texts.size, ⟨t.texts.push s, t.index.insert s t.texts.size, t.agree.push h⟩) := by
  unfold intern
  split
  · next h' => simp [h] at h'
  · rfl

end TextTable

end Silly
