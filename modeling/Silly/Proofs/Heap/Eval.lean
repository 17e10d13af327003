import Silly.Machine.Eval
import Silly.Proofs.Environment.Map
import Silly.Proofs.Heap.Value

/-!
# Evaluation with and without a heap

An expression is evaluated in an environment whose values the heap gives meaning to. Evaluated in the
environment of what those values stand for, it comes to what its value stands for, or fails in the
same way (`Expr.tracks_eval`). The environment does not change meanwhile and the heap only grows, so
the values in it still stand for the same when the next operand is evaluated.
-/

namespace Silly

namespace Environment

variable {h h' : Heap} {env : Environment}

/-- Every value of a variable is valid. -/
def Valid (h : Heap) (env : Environment) : Prop := env.All (Value.Valid h)

/-- **What an environment stands for**: what each of its values stands for. -/
def plain (h : Heap) (env : Environment) : Environment (Value String) := env.map (Value.plain h)

theorem Valid.of_extends (hv : env.Valid h) (hh : h.Extends h') : env.Valid h' :=
  All.imp hv fun _ h => h.of_extends hh

theorem Valid.plain_of_extends (hv : env.Valid h) (hh : h.Extends h') :
    env.plain h' = env.plain h :=
  All.map_congr hv fun _ h => h.plain_of_extends hh

/-- **A variable's value** stands for the one that it has without a heap. -/
theorem Valid.tracks_lookup (hv : env.Valid h) (names : Interner) (x : Name) :
    TracksValue h ((env.lookup x).outcome names, h)
      (((env.plain h).lookup x).outcome names, ()) := by
  rw [plain, map_lookup]
  cases hx : env.lookup x with
  | ok v => exact .ok (All.lookup hv hx)
  | error e => cases e <;> exact .error _

end Environment

variable {h : Heap} {env : Environment} (names : Interner)

mutual
/-- **An expression comes to the same without a heap.** -/
theorem Expr.tracks_eval {h : Heap} (hv : env.Valid h) : ∀ e : Expr,
    TracksValue h (e.eval names env h) (e.eval names (env.plain h) ())
  | .int _ | .bool _ => .ok trivial
  | .str x => .newString _
  | .var x => hv.tracks_lookup names x
  | .list es => by
    -- The items come to values or fail. In each case the list does what they do.
    obtain ⟨s, h', hr, hr', hh⟩ | ⟨vs, h', hr, hr', hh, hvs⟩ := (items_tracks_eval hv es).cases
    · simp only [Expr.eval, hr, hr']
      exact .of_extends hh (.error s)
    · simp only [Expr.eval, hr, hr', ← Value.plain_list]
      exact .of_extends hh (.ok (a := Value.list vs) hvs)
  | .unary op e => by
    -- So it is with one operand.
    obtain ⟨s, h', hr, hr', hh⟩ | ⟨v, h', hr, hr', hh, hval⟩ := (e.tracks_eval hv).cases
    · simp only [Expr.eval, hr, hr']
      exact .of_extends hh (.error s)
    · simp only [Expr.eval, hr, hr']
      exact .of_extends hh (op.tracks_apply hval)
  | .binary op l r => by
    -- The first operand fails, and the second one is not evaluated.
    obtain ⟨s, h', hr, hr', hh⟩ | ⟨v, h', hr, hr', hh, hval⟩ := (l.tracks_eval hv).cases
    · simp only [Expr.eval, hr, hr']
      exact .of_extends hh (.error s)
    · -- The second operand is evaluated in a heap that has grown, but what the environment stands
      -- for is the same there.
      have hright := r.tracks_eval (hv.of_extends hh)
      rw [hv.plain_of_extends hh] at hright
      obtain ⟨s, h'', hs, hs', hh'⟩ | ⟨w, h'', hs, hs', hh', hwal⟩ := hright.cases
      · simp only [Expr.eval, hr, hr', hs, hs']
        exact .of_extends (hh.trans hh') (.error s)
      · -- So is what the first operand stands for.
        simp only [Expr.eval, hr, hr', hs, hs']
        rw [← hval.plain_of_extends hh']
        exact .of_extends (hh.trans hh') (op.tracks_apply (hval.of_extends hh') hwal)

/-- The items of a list. -/
theorem items_tracks_eval {h : Heap} (hv : env.Valid h) : ∀ es : List Expr,
    TracksItems h (evalItems names env es h) (evalItems names (env.plain h) es ())
  | [] => .ok trivial
  | e :: es => by
    obtain ⟨s, h', hr, hr', hh⟩ | ⟨v, h', hr, hr', hh, hval⟩ := (e.tracks_eval hv).cases
    · simp only [evalItems, hr, hr']
      exact .of_extends hh (.error s)
    · -- As with a second operand.
      have hrest := items_tracks_eval (hv.of_extends hh) es
      rw [hv.plain_of_extends hh] at hrest
      obtain ⟨s, h'', hs, hs', hh'⟩ | ⟨vs, h'', hs, hs', hh', hvs⟩ := hrest.cases
      · simp only [evalItems, hr, hr', hs, hs']
        exact .of_extends (hh.trans hh') (.error s)
      · simp only [evalItems, hr, hr', hs, hs']
        rw [← hval.plain_of_extends hh', ← List.map_cons]
        exact .of_extends (hh.trans hh') (.ok (a := v :: vs) ⟨hval.of_extends hh', hvs⟩)
end

end Silly
