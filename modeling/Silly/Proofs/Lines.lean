import Silly.Tree.Display

/-!
# Texts and their lines

A text is cut into lines at its line breaks (`textLines`). There are two ways in which lines are put into
one text: with a line break between each two of them, as in the text of a tree (`unlines`), or with one
after each, as in the listing of a source (`ended`). Either way the lines are found again, if none of them
holds a line break itself (`OneLine`). In the second way an empty line comes last.
-/

namespace Silly

/-- **The lines of a text**: what its line breaks divide it into. -/
def textLines (s : String) : List String := (s.toList.splitOn '\n').map String.ofList

/-- The text of a list of lines with a line break after each. -/
def ended (ls : List String) : String := String.join (ls.map (· ++ "\n"))

/-- Whether a text stays on one line. -/
def OneLine (s : String) : Prop := '\n' ∉ s.toList

instance (s : String) : Decidable (OneLine s) := inferInstanceAs (Decidable ('\n' ∉ s.toList))

variable {s s' : String} {ls : List String}

/-! ### Texts on one line -/

theorem OneLine.append (h : OneLine s) (h' : OneLine s') : OneLine (s ++ s') := by
  unfold OneLine
  rw [String.toList_append, List.mem_append]
  exact fun hbreak => hbreak.elim h h'

theorem OneLine.between {before after : String} (h : OneLine s) (hbefore : OneLine before)
    (hafter : OneLine after) : OneLine (before ++ s ++ after) :=
  (hbefore.append h).append hafter

/-- Any number of texts on one line stay on one line, with such a text between each two. -/
theorem OneLine.intercalate (hs : OneLine s) (h : ∀ l ∈ ls, OneLine l) :
    OneLine (s.intercalate ls) := by
  induction ls with
  | nil => exact List.not_mem_nil
  | cons l ls ih =>
    obtain ⟨hl, hls⟩ := List.forall_mem_cons.mp h
    cases ls with
    | nil => rwa [String.intercalate_singleton]
    | cons l' ls =>
      rw [String.intercalate_cons_cons]
      exact (hl.append hs).append (ih hls)

/-! ### Lines found again -/

/-- **Lines with a break between each two** are found again. -/
theorem textLines_unlines (hne : ls ≠ []) (h : ∀ l ∈ ls, OneLine l) : textLines (unlines ls) = ls := by
  -- No line holds the character at which the text is cut again.
  have hbreaks : ∀ cs ∈ ls.map String.toList, '\n' ∉ cs := by
    intro cs hcs
    obtain ⟨l, hl, rfl⟩ := List.mem_map.mp hcs
    exact h l hl
  calc textLines (unlines ls)
    _ = ((['\n'].intercalate (ls.map String.toList)).splitOn '\n').map String.ofList := by
        rw [textLines, unlines, String.toList_intercalate]
        rfl
    _ = (ls.map String.toList).map String.ofList := by
        rw [List.splitOn_intercalate '\n' hbreaks (by simpa using hne)]
    _ = ls := by simp [Function.comp_def]

theorem toList_ended_cons (l : String) (ls : List String) :
    (ended (l :: ls)).toList = l.toList ++ '\n' :: (ended ls).toList := by
  simp [ended, String.toList_join]

/-- **Lines with a break after each** are found again, with an empty one after them. -/
theorem textLines_ended (h : ∀ l ∈ ls, OneLine l) : textLines (ended ls) = ls ++ [""] := by
  induction ls with
  | nil => rfl
  | cons l ls ih =>
    -- The text is cut at the first break, and what is left is the text of the other lines.
    obtain ⟨hl, hls⟩ := List.forall_mem_cons.mp h
    rw [textLines, toList_ended_cons, List.splitOn_append_cons_self_of_not_mem hl, List.map_cons,
      String.ofList_toList]
    exact congrArg (l :: ·) (ih hls)

/-- A text of such lines has one break for each. -/
theorem count_ended (h : ∀ l ∈ ls, OneLine l) : (ended ls).toList.count '\n' = ls.length := by
  induction ls with
  | nil => rfl
  | cons l ls ih =>
    obtain ⟨hl, hls⟩ := List.forall_mem_cons.mp h
    rw [toList_ended_cons, List.count_append, List.count_eq_zero_of_not_mem hl, List.count_cons_self,
      ih hls, List.length_cons, Nat.zero_add]

end Silly
