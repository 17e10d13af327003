import Mathlib.Data.List.Nodup
import Silly.Heap
import Silly.Name

/-!
# How tables of texts grow

A table of distinct texts is kept twice over, as a list and as an index, and it only ever grows. The
relation `TextTable.Extends t t'` says what this is worth to whoever holds a number that the table
has given out: every text that `t` has numbered keeps its number in `t'`. Adding a text extends the
table (`extends_intern`), so a number that was given out once is given out again for the same text
(`intern_of_extends`) and keeps standing for it (`text?_of_extends`). After several texts have been
added, the table holds what it held before and then those among them that are new, in the order in
which they first appear (`texts_internAll`).

This carries over to the two kinds of tables there are, the names of a program (`Interner`) and the
strings of a run (`Heap`).
-/

namespace Silly

namespace TextTable

variable {t t' t'' : TextTable} {s s' : String} {i : Nat}

/-- **Growth**: every text that `t` has numbered keeps its number in `t'`. -/
def Extends (t t' : TextTable) : Prop :=
  ∀ (s : String) (i : Nat), t.index[s]? = some i → t'.index[s]? = some i

/-- Growth is reflexive and transitive, as it must be to be carried along runs. -/
theorem Extends.refl (t : TextTable) : t.Extends t := fun _ _ h => h

theorem Extends.trans (h : t.Extends t') (h' : t'.Extends t'') : t.Extends t'' :=
  fun s i hs => h' s i (h s i hs)

/-! ### Adding one text -/

/-- The index after a text is added: the text has the number that the addition gave it, and all
other texts have the numbers that they had. -/
theorem index_intern (t : TextTable) (s s' : String) :
    (t.intern s).2.index[s']? = if s' = s then some (t.intern s).1 else t.index[s']? := by
  -- A text that was there changes nothing, and a new one takes a place that was free.
  cases h : t.index[s]? with
  | some i =>
    rw [intern_of_some h]
    split
    · next hs => rw [hs, h]
    · rfl
  | none =>
    rw [intern_of_none h, Std.TreeMap.getElem?_insert]
    exact if_congr (Std.LawfulEqCmp.compare_eq_iff_eq.trans eq_comm) rfl rfl

theorem index_intern_self (t : TextTable) (s : String) :
    (t.intern s).2.index[s]? = some (t.intern s).1 := by
  rw [index_intern, if_pos rfl]

/-- **Adding a text is growth.** -/
theorem extends_intern (t : TextTable) (s : String) : t.Extends (t.intern s).2 := by
  intro s' i hs'
  rw [index_intern]
  split
  · next h =>
    subst h
    rw [intern_of_some hs']
  · exact hs'

/-- A text that a table has numbered has the same number in each later one. -/
theorem intern_of_extends (h : (t.intern s).2.Extends t') : (t'.intern s).1 = (t.intern s).1 := by
  rw [intern_of_some (h s _ (index_intern_self t s))]

theorem extends_internAll (t : TextTable) (ss : List String) : t.Extends (t.internAll ss) := by
  induction ss generalizing t with
  | nil => exact .refl t
  | cons s ss ih => exact (t.extends_intern s).trans (ih (t.intern s).2)

/-! ### Reading a table -/

/-- The text behind the number that a text is given is that text. -/
theorem text?_intern (t : TextTable) (s : String) : (t.intern s).2.text? (t.intern s).1 = some s :=
  ((t.intern s).2.agree s _).mp (index_intern_self t s)

/-- Only that text can be behind the number that it is given. -/
theorem eq_of_text?_intern (h : t.text? (t.intern s).1 = some s') : s' = s := by
  cases hs : t.index[s]? with
  | some i =>
    rw [intern_of_some hs] at h
    exact Option.some.inj (h.symm.trans ((t.agree s i).mp hs))
  | none =>
    -- The number is the first free one, behind which there is nothing.
    rw [intern_of_none hs, text?, Array.getElem?_eq_none (Nat.le_refl _)] at h
    cases h

/-- Every other text is behind the number that it was behind. -/
theorem eq_or_text?_of_intern (h : (t.intern s).2.text? i = some s') :
    s' = s ∨ t.text? i = some s' := by
  have hindex := ((t.intern s).2.agree s' i).mpr h
  rw [index_intern] at hindex
  split at hindex
  · next hs => exact .inl hs
  · exact .inr ((t.agree s' i).mp hindex)

/-- Adding a text that a table holds gives its number and changes nothing. -/
theorem intern_of_text? (h : t.text? i = some s) : t.intern s = (i, t) :=
  intern_of_some ((t.agree s i).mpr h)

/-- A number keeps its text while a table grows. -/
theorem text?_of_extends (he : t.Extends t') (h : t.text? i = some s) : t'.text? i = some s :=
  (t'.agree s i).mp (he s i ((t.agree s i).mpr h))

/-- A table holds no text twice. -/
theorem texts_nodup (t : TextTable) : t.texts.toList.Nodup := by
  -- Two places of one text would both be the number that the index has for it.
  rw [List.nodup_iff_getElem?_ne_getElem?]
  intro i j hij hj heq
  have hsome : t.texts.toList[j]? = some t.texts.toList[j] := List.getElem?_eq_getElem hj
  have hi : t.texts[i]? = some t.texts.toList[j] := by
    rw [← Array.getElem?_toList, heq, hsome]
  have hj' : t.texts[j]? = some t.texts.toList[j] := by
    rw [← Array.getElem?_toList, hsome]
  have hnumber := ((t.agree _ i).mpr hi).symm.trans ((t.agree _ j).mpr hj')
  exact absurd (Option.some.inj hnumber) (Nat.ne_of_lt hij)

/-! ### Numbers by first appearance -/

/-- **The texts of `ss` that are not among `old`**, each of them once, as they first appear. -/
def newTexts (old ss : List String) : List String := (ss.removeAll old).eraseDups

theorem newTexts_cons_of_mem {old : List String} (ss : List String) (h : s ∈ old) :
    newTexts old (s :: ss) = newTexts old ss := by
  rw [newTexts, List.cons_removeAll, if_neg (by simpa using h), newTexts]

/-- A text that is new comes first, and is old from there on. -/
theorem newTexts_cons_of_notMem {old : List String} (ss : List String) (h : s ∉ old) :
    newTexts old (s :: ss) = s :: newTexts (old ++ [s]) ss := by
  have hrest : (ss.removeAll old).filter (fun s' => !s' == s) = ss.removeAll (old ++ [s]) := by
    rw [List.removeAll, List.filter_filter, List.removeAll]
    refine List.filter_congr fun s' _ => ?_
    simp [Bool.and_comm, beq_eq_decide]
  rw [newTexts, List.cons_removeAll, if_pos (by simpa using h), List.eraseDups_cons, hrest, newTexts]

/-- A table holds the texts that have a number in it. -/
theorem mem_texts_iff : s ∈ t.texts.toList ↔ ∃ i, t.index[s]? = some i := by
  rw [List.mem_iff_getElem?]
  simp only [Array.getElem?_toList, ← t.agree s]

/-- **Texts are numbered as they first appear.** A table to which texts are added holds what it held,
and after that the new ones among them. -/
theorem texts_internAll (t : TextTable) (ss : List String) :
    (t.internAll ss).texts.toList = t.texts.toList ++ newTexts t.texts.toList ss := by
  -- By induction on the texts that are added, with the table general: each of them changes it.
  induction ss generalizing t with
  | nil => simp [newTexts, List.removeAll]
  | cons s ss ih =>
    rw [internAll_cons, ih]
    cases h : t.index[s]? with
    | some i => rw [intern_of_some h, newTexts_cons_of_mem ss (mem_texts_iff.mpr ⟨i, h⟩)]
    | none =>
      have hnew : s ∉ t.texts.toList := by
        rw [mem_texts_iff, h]
        simp
      rw [intern_of_none h, newTexts_cons_of_notMem ss hnew]
      simp

end TextTable

/-! ### Tables of names -/

namespace Interner

variable {names names' names'' : Interner} {s : String} {x : Name}

/-- Every text that has a name in `names` has the same name in `names'`. -/
def Extends (names names' : Interner) : Prop := names.table.Extends names'.table

/-- **The name of a text**: the one it has, or would be given next. -/
def nameOf (names : Interner) (s : String) : Name := (names.intern s).1

/-- Whether a text has a name. -/
def Holds (names : Interner) (s : String) : Prop := names.text? (names.nameOf s) = some s

theorem Extends.refl (names : Interner) : names.Extends names := TextTable.Extends.refl _

theorem Extends.trans (h : names.Extends names') (h' : names'.Extends names'') :
    names.Extends names'' :=
  TextTable.Extends.trans h h'

theorem extends_intern (names : Interner) (s : String) : names.Extends (names.intern s).2 :=
  TextTable.extends_intern _ s

/-- A text that was named keeps its name. -/
theorem nameOf_of_extends (h : (names.intern s).2.Extends names') :
    names'.nameOf s = (names.intern s).1 :=
  congrArg Name.mk (TextTable.intern_of_extends h)

theorem holds_intern (names : Interner) (s : String) : (names.intern s).2.Holds s := by
  unfold Holds
  rw [nameOf_of_extends (Extends.refl _)]
  exact TextTable.text?_intern names.table s

/-- The name of a text is the name that stands for it. -/
theorem nameOf_of_text? (hx : names.text? x = some s) : names.nameOf s = x :=
  congrArg (fun r => Name.mk r.1) (TextTable.intern_of_text? hx)

theorem text?_of_extends (he : names.Extends names') (hx : names.text? x = some s) :
    names'.text? x = some s :=
  TextTable.text?_of_extends he hx

/-- A text whose name stands for something has that name. -/
theorem holds_of_text? {s' : String} (hx : names.text? (names.nameOf s) = some s') :
    names.Holds s := by
  have heq : s' = s := TextTable.eq_of_text?_intern hx
  unfold Holds
  rw [hx, heq]

/-- What a name stands for has a name. -/
theorem holds_of_name (hx : names.text? x = some s) : names.Holds s := by
  unfold Holds
  rwa [nameOf_of_text? hx]

/-- Behind the last name there is no text. -/
theorem text?_size_add (names : Interner) (i : Nat) : names.text? ⟨names.size + i⟩ = none :=
  Array.getElem?_eq_none (Nat.le_add_right _ _)

/-- A text that has a name keeps having one. -/
theorem Holds.of_extends (he : names.Extends names') (hs : names.Holds s) : names'.Holds s :=
  holds_of_name (text?_of_extends he hs)

/-- Each of several texts that are added has a name. -/
theorem holds_internAll (names : Interner) {ss : List String} (hs : s ∈ ss) :
    Interner.Holds ⟨names.table.internAll ss⟩ s := by
  -- By induction on the texts. The one that was asked for is the next one, or comes later.
  induction ss generalizing names with
  | nil => cases hs
  | cons s' ss ih =>
    rcases List.mem_cons.mp hs with rfl | hs
    · have hextends : (names.intern s).2.Extends ⟨names.table.internAll (s :: ss)⟩ :=
        (names.intern s).2.table.extends_internAll ss
      exact (names.holds_intern s).of_extends hextends
    · exact ih (names.intern s').2 hs

/-! ### Several texts -/

/-- The names after each of several texts has been named. -/
def internAll (names : Interner) (ss : List String) : Interner := ⟨names.table.internAll ss⟩

/-- All texts that have a name, in the order of their names. -/
def texts (names : Interner) : List String := names.table.texts.toList

@[simp] theorem internAll_nil (names : Interner) : names.internAll [] = names := rfl

@[simp] theorem internAll_cons (names : Interner) (s : String) (ss : List String) :
    names.internAll (s :: ss) = (names.intern s).2.internAll ss := rfl

theorem internAll_append (names : Interner) (ss ss' : List String) :
    names.internAll (ss ++ ss') = (names.internAll ss).internAll ss' :=
  congrArg Interner.mk (TextTable.internAll_append _ ss ss')

/-- **Names are given in the order in which the texts first appear.** -/
theorem texts_internAll (names : Interner) (ss : List String) :
    (names.internAll ss).texts = names.texts ++ TextTable.newTexts names.texts ss :=
  TextTable.texts_internAll names.table ss

/-- What has a name at the start of a program. -/
theorem texts_initial : initial.texts = initialTexts := by decide

/-! ### Names in two tables -/

/-- **Two names of the same text**, one in each of two tables. -/
def SameText (names names' : Interner) (x x' : Name) : Prop :=
  ∃ s, names.text? x = some s ∧ names'.text? x' = some s

namespace SameText

variable {x' y y' : Name}

theorem of_holds (hs : names.Holds s) (hs' : names'.Holds s) :
    names.SameText names' (names.nameOf s) (names'.nameOf s) :=
  ⟨s, hs, hs'⟩

/-- **Which names are equal** is the same in both tables, as no text has two names. -/
theorem eq_iff (h : names.SameText names' x x') (h' : names.SameText names' y y') :
    x = y ↔ x' = y' := by
  obtain ⟨s, hx, hx'⟩ := h
  obtain ⟨r, hy, hy'⟩ := h'
  constructor
  -- Equal names have equal texts, and the name of a text is determined by the text.
  · rintro rfl
    obtain rfl : s = r := Option.some.inj (hx.symm.trans hy)
    rw [← nameOf_of_text? hx', nameOf_of_text? hy']
  · rintro rfl
    obtain rfl : s = r := Option.some.inj (hx'.symm.trans hy')
    rw [← nameOf_of_text? hx, nameOf_of_text? hy]

/-- Within one table there is only the name itself. -/
theorem eq (h : names.SameText names x y) : x = y := by
  obtain ⟨s, hx, hy⟩ := h
  rw [← nameOf_of_text? hx, nameOf_of_text? hy]

/-- Names keep their texts while the tables grow. -/
theorem of_extends {more more' : Interner} (he : names.Extends more) (he' : names'.Extends more')
    (h : names.SameText names' x x') : more.SameText more' x x' := by
  obtain ⟨s, hx, hx'⟩ := h
  exact ⟨s, text?_of_extends he hx, text?_of_extends he' hx'⟩

theorem text_eq (h : names.SameText names' x x') : names.text x = names'.text x' := by
  obtain ⟨s, hx, hx'⟩ := h
  rw [text, text, hx, hx']

end SameText

end Interner

end Silly
