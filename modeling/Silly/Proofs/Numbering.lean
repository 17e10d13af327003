import Mathlib.Data.Finset.Card
import Silly.Proofs.Table

/-!
# Numbers and texts

What comes of a table after any row of calls that add texts to it. Two calls get the same number exactly
if their texts are equal, whatever is added between them (`TextTable.intern_eq_iff`). The table grows by
one with a new text, and with no other (`TextTable.size_intern_eq_iff`). One that was empty holds the texts
of the calls, each once and in the order in which they first appear (`TextTable.texts_internAll_empty`), so
that the number of a text is its place in that order.

That the list and the index of a table are inverse to each other belongs to what a table is
(`TextTable.agree`). A call keeps it up, since a new text is put at the end of the list, where nothing was.

Names and handles are equal exactly if their numbers are, so all of this is true of the names of a program
(`Interner.growing_bijection`), where the empty text and the words of the language come first, and of the
heap of a run (`Heap.append_only`), which starts with nothing.
-/

namespace Silly

namespace TextTable

variable {t t' : TextTable} {s s' : String} {i : Nat}

/-! ### Two calls -/

/-- **Two calls get the same number exactly if their texts are equal**, whatever is added between them. -/
theorem intern_eq_iff (h : (t.intern s).2.Extends t') : (t'.intern s').1 = (t.intern s).1 ↔ s' = s := by
  constructor
  · intro heq
    -- The number still stands for the text that it was given to first.
    have hfirst : t'.text? (t'.intern s').1 = some s := by
      rw [heq]
      exact text?_of_extends h (text?_intern t s)
    exact (eq_of_text?_intern hfirst).symm
  · rintro rfl
    exact intern_of_extends h

/-- Two numbers are equal exactly if their texts are. -/
theorem eq_iff_of_text? {j : Nat} (hi : t.text? i = some s) (hj : t.text? j = some s') :
    i = j ↔ s = s' := by
  constructor
  · rintro rfl
    exact Option.some.inj (hi.symm.trans hj)
  · rintro rfl
    exact congrArg Prod.fst ((intern_of_text? hi).symm.trans (intern_of_text? hj))

/-! ### Size -/

/-- A text that is there changes nothing. -/
theorem intern_of_mem (h : s ∈ t.texts.toList) : (t.intern s).2 = t := by
  obtain ⟨i, hi⟩ := mem_texts_iff.mp h
  rw [intern_of_some hi]

/-- A new text is put at the end. -/
theorem texts_intern_of_notMem (h : s ∉ t.texts.toList) :
    (t.intern s).2.texts.toList = t.texts.toList ++ [s] := by
  -- A text that is not in the list is not in the index either.
  have hindex : t.index[s]? = none := by
    rw [Option.eq_none_iff_forall_ne_some]
    exact fun i hi => h (mem_texts_iff.mpr ⟨i, hi⟩)
  rw [intern_of_none hindex, Array.toList_push]

/-- **A table grows by one exactly if the text is new.** -/
theorem size_intern_eq_iff : (t.intern s).2.size = t.size + 1 ↔ s ∉ t.texts.toList := by
  constructor
  · intro hsize hmem
    -- An old text leaves the size, and a new one adds one to it.
    rw [intern_of_mem hmem] at hsize
    exact absurd hsize (Nat.ne_of_lt (Nat.lt_succ_self _))
  · intro hnew
    rw [size, ← Array.length_toList, texts_intern_of_notMem hnew, List.length_append,
      Array.length_toList]
    rfl

/-! ### Tables that were empty -/

/-- **A table that was empty holds the texts of the calls**, as they first appear. -/
theorem texts_internAll_empty (ss : List String) :
    (empty.internAll ss).texts.toList = ss.eraseDups := by
  have hempty : empty.texts.toList = [] := rfl
  rw [texts_internAll, hempty, List.nil_append, newTexts, List.removeAll_nil]

/-- **Its size is the number of distinct texts** among those of the calls. -/
theorem size_internAll_empty (ss : List String) : (empty.internAll ss).size = ss.toFinset.card := by
  have hnodup := (empty.internAll ss).texts_nodup
  rw [texts_internAll_empty] at hnodup
  -- A list without repetition has as many texts as the set of them.
  have hsame : ss.eraseDups.toFinset = ss.toFinset := by
    ext s
    rw [List.mem_toFinset, List.mem_toFinset, List.mem_eraseDups]
  rw [size, ← Array.length_toList, texts_internAll_empty, ← List.toFinset_card_of_nodup hnodup, hsame]

/-- A number is the place of its text in the list. -/
theorem idxOf_of_text? (h : t.text? i = some s) : t.texts.toList.idxOf s = i := by
  rw [text?, ← Array.getElem?_toList] at h
  obtain ⟨hi, rfl⟩ := List.getElem?_eq_some_iff.mp h
  exact t.texts_nodup.idxOf_getElem i hi

/-- **Texts are numbered by first appearance.** -/
theorem intern_internAll_empty (ss : List String) (s : String) :
    ((empty.internAll ss).intern s).1 = (ss ++ [s]).eraseDups.idxOf s := by
  -- The call is one more call, and so its text is in the list of them all.
  have hafter : ((empty.internAll ss).intern s).2 = empty.internAll (ss ++ [s]) := by
    rw [internAll_append]
    rfl
  have htext := text?_intern (empty.internAll ss) s
  rw [hafter] at htext
  rw [← texts_internAll_empty, idxOf_of_text? htext]

end TextTable

/-! ### Names -/

namespace Interner

/-- **A table of names after a row of calls.** -/
structure GrowingBijection (calls : List String) (names : Interner) : Prop where
  /-- The index and the list of texts are inverse to each other. -/
  inverse : ∀ (s : String) (i : Nat),
    names.table.index[s]? = some i ↔ names.table.texts[i]? = some s
  /-- The name that a text is given stands for that text. -/
  lookup : ∀ s : String, (names.intern s).2.text? (names.intern s).1 = some s
  /-- Two calls give equal names exactly if their texts are equal, whatever is named between them. -/
  same_iff : ∀ (s : String) (between : List String) (s' : String),
    (((names.intern s).2.internAll between).intern s').1 = (names.intern s).1 ↔ s' = s
  /-- A name keeps its text. -/
  kept : ∀ (x : Name) (s : String), names.text? x = some s →
    ∀ more : List String, (names.internAll more).text? x = some s
  /-- The empty text and the words of the language have names from the start. -/
  held : ∀ s : String, s ∈ names.texts ↔ s = "" ∨ (∃ k : StatementKeyword, k.text = s) ∨
    (∃ k : Keyword, k.text = s) ∨ s ∈ calls
  /-- A text that is not there makes the table larger by one. -/
  grows : ∀ s : String, (names.intern s).2.size = names.size + 1 ↔ s ∉ names.texts
  /-- A text that is there changes nothing. -/
  stays : ∀ s : String, s ∈ names.texts → (names.intern s).2 = names

/-- **The first texts** are the empty text and the words of the language. -/
theorem mem_initialTexts {s : String} : s ∈ initialTexts ↔
    s = "" ∨ (∃ k : StatementKeyword, k.text = s) ∨ ∃ k : Keyword, k.text = s := by
  have hstatements (k : StatementKeyword) : k ∈ StatementKeyword.all :=
    List.mem_of_getElem? k.all_index
  have hkeywords (k : Keyword) : k ∈ Keyword.all := by cases k <;> decide
  simp [initialTexts, hstatements, hkeywords]

/-- The names after a row of calls are those of a table that was empty, and was given the first texts
before. -/
theorem table_internAll_initial (calls : List String) :
    (initial.internAll calls).table = TextTable.empty.internAll (initialTexts ++ calls) :=
  (TextTable.internAll_append _ _ _).symm

/-- **The names of a program are a growing bijection**, whatever texts are named. -/
theorem growing_bijection (calls : List String) :
    GrowingBijection calls (initial.internAll calls) where
  inverse := (initial.internAll calls).table.agree
  lookup := TextTable.text?_intern (initial.internAll calls).table
  same_iff s between s' := by
    have hextends := TextTable.extends_internAll ((initial.internAll calls).intern s).2.table between
    refine Iff.trans ?_ (TextTable.intern_eq_iff hextends)
    -- Names are equal exactly if their numbers are.
    exact ⟨congrArg Name.index, congrArg Name.mk⟩
  kept x s hx more := TextTable.text?_of_extends (TextTable.extends_internAll _ more) hx
  held s := by
    rw [texts, table_internAll_initial, TextTable.texts_internAll_empty, List.mem_eraseDups,
      List.mem_append, mem_initialTexts]
    simp only [or_assoc]
  grows s := TextTable.size_intern_eq_iff
  stays s hs := congrArg Interner.mk (TextTable.intern_of_mem hs)

end Interner

/-! ### Handles -/

namespace Heap

/-- The heap after each of several texts has been stored. -/
def internAll (h : Heap) (ss : List String) : Heap := ss.foldl (fun h s => (h.intern s).2) h

/-- A heap stores texts as its table does. -/
theorem table_internAll (h : Heap) (ss : List String) :
    (h.internAll ss).table = h.table.internAll ss := by
  induction ss generalizing h with
  | nil => rfl
  | cons s ss ih => exact ih (h.intern s).2

/-- **A heap after a row of calls.** -/
structure AppendOnly (calls : List String) (h : Heap) : Prop where
  /-- The index and the list of texts are inverse to each other. -/
  inverse : ∀ (s : String) (i : Nat), h.table.index[s]? = some i ↔ h.table.texts[i]? = some s
  /-- The handle that a text is given stands for that text. -/
  lookup : ∀ s : String, (h.intern s).2.text? (h.intern s).1 = some s
  /-- Two calls give equal handles exactly if their texts are equal, whatever is stored between them. -/
  same_iff : ∀ (s : String) (between : List String) (s' : String),
    (((h.intern s).2.internAll between).intern s').1 = (h.intern s).1 ↔ s' = s
  /-- Of the handles that were given out, those are equal that stand for equal texts. -/
  eq_iff : ∀ (x y : Handle) (s r : String), h.text? x = some s → h.text? y = some r →
    (x = y ↔ s = r)
  /-- A handle keeps its text. -/
  kept : ∀ (x : Handle) (s : String), h.text? x = some s →
    ∀ more : List String, (h.internAll more).text? x = some s
  /-- Further texts come after the ones that are there. -/
  appends : ∀ more : List String, h.table.texts.toList <+: (h.internAll more).table.texts.toList
  /-- The texts are in the order in which they first appeared. -/
  contents : h.table.texts.toList = calls.eraseDups
  /-- No text is there twice. -/
  nodup : h.table.texts.toList.Nodup
  /-- The number of a handle is the place of its text among all texts, as they first appear. -/
  numbered : ∀ s : String, (h.intern s).1 = ⟨(calls ++ [s]).eraseDups.idxOf s⟩
  /-- The size is the number of distinct texts that were stored. -/
  size : h.size = calls.toFinset.card

/-- A heap after a row of calls is a table that was empty. -/
theorem table_internAll_empty (calls : List String) :
    (empty.internAll calls).table = TextTable.empty.internAll calls :=
  table_internAll empty calls

/-- **The heap of a run only grows, and holds no text twice**, whatever texts are stored. -/
theorem append_only (calls : List String) : AppendOnly calls (empty.internAll calls) where
  inverse := (empty.internAll calls).table.agree
  lookup := TextTable.text?_intern (empty.internAll calls).table
  same_iff s between s' := by
    have hextends := TextTable.extends_internAll ((empty.internAll calls).intern s).2.table between
    rw [← table_internAll] at hextends
    refine Iff.trans ?_ (TextTable.intern_eq_iff hextends)
    -- Handles are equal exactly if their numbers are.
    exact ⟨congrArg Handle.index, congrArg Handle.mk⟩
  eq_iff x y s r hx hy := by
    refine Iff.trans ?_ (TextTable.eq_iff_of_text? hx hy)
    exact ⟨congrArg Handle.index, congrArg Handle.mk⟩
  kept x s hx more := by
    rw [text?, table_internAll]
    exact TextTable.text?_of_extends (TextTable.extends_internAll _ more) hx
  appends more := by
    rw [table_internAll (empty.internAll calls) more, TextTable.texts_internAll]
    exact List.prefix_append _ _
  contents := by
    rw [table_internAll_empty, TextTable.texts_internAll_empty]
  nodup := (empty.internAll calls).table.texts_nodup
  numbered s := by
    have hnumber := TextTable.intern_internAll_empty calls s
    rw [← table_internAll_empty] at hnumber
    exact congrArg Handle.mk hnumber
  size := by
    rw [Heap.size, table_internAll_empty, TextTable.size_internAll_empty]

end Heap

end Silly
