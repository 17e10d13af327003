import Mathlib.Data.Set.Function
import Silly.Proofs.Table
import Silly.Tree.Basic

/-!
# Renaming the variables and the subroutines of a tree

A tree uses names for three purposes. A name stands for a variable, for a subroutine or for the text of
a string literal, and all three are numbers from one table: only the place in the tree says which it is.
So a renaming has one function for each purpose, and each is applied in its own places throughout the
tree (`Stmt.rename`).

The new names need not be in the table, so a renaming leads from the trees over one table to those over
another (`Renaming`). The texts of variables change by `varText` and those of subroutines by `subText`,
independently of each other. What is a literal keeps its text, also where a variable of that text is
renamed. No two variables become one, and no two subroutines. That is all there is to it: every two
functions that keep the texts of the table apart are those of some renaming (`exists_renaming`).
-/

namespace Silly

/-- **What each name becomes**, by the purpose for which it is used. -/
structure NameMaps where
  var : Name → Name
  sub : Name → Name
  str : Name → Name

/-! ### Trees -/

mutual
/-- **An expression with its names changed.** -/
def Expr.rename (r : NameMaps) : Expr → Expr
  | .int n => .int n
  | .bool b => .bool b
  | .str x => .str (r.str x)
  | .var x => .var (r.var x)
  | .list es => .list (renameItems r es)
  | .unary op e => .unary op (e.rename r)
  | .binary op l r' => .binary op (l.rename r) (r'.rename r)

/-- The items of a list with their names changed. -/
def renameItems (r : NameMaps) : List Expr → List Expr
  | [] => []
  | e :: es => e.rename r :: renameItems r es
end

mutual
/-- **A statement with its names changed.** -/
def Stmt.rename (r : NameMaps) : Stmt → Stmt
  | .assign x e => .assign (r.var x) (e.rename r)
  | .declare x e => .declare (r.var x) (e.rename r)
  | .print e => .print (e.rename r)
  | .ifElse arms => .ifElse (arms.rename r)
  | .whileDo cond body => .whileDo (cond.rename r) (renameBlock r body)
  | .repeatTimes count body => .repeatTimes (count.rename r) (renameBlock r body)
  | .sub x body => .sub (r.sub x) (renameBlock r body)
  | .call x => .call (r.sub x)
  | .exit => .exit
  | .breakLoop => .breakLoop

/-- The arms of an `if` with their names changed. -/
def Arms.rename (r : NameMaps) : Arms → Arms
  | .done => .done
  | .otherwise body => .otherwise (renameBlock r body)
  | .arm cond body rest => .arm (cond.rename r) (renameBlock r body) (rest.rename r)

/-- The statements of a block with their names changed. -/
def renameBlock (r : NameMaps) : List Stmt → List Stmt
  | [] => []
  | s :: ss => s.rename r :: renameBlock r ss
end

/-! ### Renamings -/

/-- **A renaming** of the variables and of the subroutines in the trees over `names`, which gives trees
over `names'`. A number that is no name becomes one that is none. -/
structure Renaming (names names' : Interner) extends NameMaps where
  /-- What the variables of a text are called afterwards. -/
  varText : String → String
  /-- What the subroutines of a text are called afterwards. -/
  subText : String → String
  var_injective : Function.Injective var
  sub_injective : Function.Injective sub
  var_text? : ∀ x, names'.text? (var x) = (names.text? x).map varText
  sub_text? : ∀ x, names'.text? (sub x) = (names.text? x).map subText
  /-- The text of a literal stays. -/
  str_text? : ∀ x, names'.text? (str x) = names.text? x

/-! ### Every renaming of texts -/

namespace Interner

variable {names names' : Interner} {f : String → String} {x y : Name}

/-- The names of `names` in another table, after their texts were changed by `f`. What is no name is
moved behind all names of that table. -/
def renumber (names names' : Interner) (f : String → String) (x : Name) : Name :=
  match names.text? x with
  | some s => names'.nameOf (f s)
  | none => ⟨names'.size + x.index⟩

/-- The renumbered name of a text is the name of the changed text. -/
theorem text?_renumber (hf : ∀ x s, names.text? x = some s → names'.Holds (f s)) (x : Name) :
    names'.text? (names.renumber names' f x) = (names.text? x).map f := by
  unfold renumber
  cases hx : names.text? x with
  | none => exact names'.text?_size_add x.index
  | some s => exact hf x s hx

/-- **No two names become one**, if the function keeps their texts apart. -/
theorem renumber_injective (hf : ∀ x s, names.text? x = some s → names'.Holds (f s))
    (hinj : Set.InjOn f {s | names.Holds s}) : Function.Injective (names.renumber names' f) := by
  intro x y hxy
  have htext : (names.text? x).map f = (names.text? y).map f := by
    rw [← text?_renumber hf x, ← text?_renumber hf y, hxy]
  cases hx : names.text? x with
  | some s =>
    obtain ⟨s', hy, hs⟩ : ∃ s', names.text? y = some s' ∧ f s' = f s := by
      rw [hx, Option.map_some] at htext
      exact Option.map_eq_some_iff.mp htext.symm
    -- The function keeps the texts apart, so the two are the same text.
    have hsame : s' = s := hinj (holds_of_name hy) (holds_of_name hx) hs
    exact SameText.eq ⟨s, hx, hsame ▸ hy⟩
  -- A number that is no name was moved by the size of the table, and by that alone.
  | none =>
    have hy : names.text? y = none := by
      rw [hx, Option.map_none] at htext
      exact Option.map_eq_none_iff.mp htext.symm
    simp only [renumber, hx, hy, Name.mk.injEq, Nat.add_left_cancel_iff] at hxy
    calc x = ⟨x.index⟩ := rfl
      _ = ⟨y.index⟩ := congrArg Name.mk hxy
      _ = y := rfl

end Interner

/-- **Every two functions that keep the texts of a table apart** are those by which some renaming changes
the variables and the subroutines of the trees over it. -/
theorem exists_renaming (names : Interner) {ρ σ : String → String}
    (hρ : Set.InjOn ρ {s | names.Holds s}) (hσ : Set.InjOn σ {s | names.Holds s}) :
    ∃ names', ∃ r : Renaming names names', r.varText = ρ ∧ r.subText = σ := by
  let texts := names.table.texts.toList
  let names' : Interner := ⟨names.table.internAll (texts.map ρ ++ texts.map σ)⟩
  have hmem (x : Name) (s : String) (hx : names.text? x = some s) : s ∈ texts :=
    Array.mem_toList_iff.mpr (Array.mem_of_getElem? hx)
  -- The new names have been added, and the old texts are still there for the literals.
  have hvar (x : Name) (s : String) (hx : names.text? x = some s) : names'.Holds (ρ s) :=
    names.holds_internAll (List.mem_append_left _ (List.mem_map_of_mem (hmem x s hx)))
  have hsub (x : Name) (s : String) (hx : names.text? x = some s) : names'.Holds (σ s) :=
    names.holds_internAll (List.mem_append_right _ (List.mem_map_of_mem (hmem x s hx)))
  have hstr (x : Name) (s : String) (hx : names.text? x = some s) : names'.Holds (id s) :=
    (Interner.holds_of_name hx).of_extends (names.table.extends_internAll _)
  refine ⟨names', ⟨⟨names.renumber names' ρ, names.renumber names' σ, names.renumber names' id⟩, ρ, σ,
    Interner.renumber_injective hvar hρ, Interner.renumber_injective hsub hσ,
    Interner.text?_renumber hvar, Interner.text?_renumber hsub, fun x => ?_⟩, rfl, rfl⟩
  exact (Interner.text?_renumber hstr x).trans Option.map_id_apply

end Silly
