import Silly.Proofs.Heap.Eval
import Silly.Proofs.Heap.Raises

/-!
# No string is missing

A fault is something that is looked up and does not exist. Without a heap no string can be missing, as
each carries its text, so no operator comes to a fault there, whatever values it is applied to. With a
heap it does not either, as long as the values are valid: the evaluation with a heap ends as the one
without does (`Expr.tracks_eval`).

What remains are the names and the variables of an expression (`ExprAlike.faultless`).
-/

namespace Silly

/-- **An outcome that is no fault.** -/
def Faultless {α : Type} (r : Outcome α) : Prop := ∀ f, r ≠ .error (.fault f)

section Faultless

variable {α β : Type} {r : Outcome α}

theorem faultless_ok (a : α) : Faultless (.ok a : Outcome α) := nofun

theorem faultless_error (e : RunError) : Faultless (.error (.error e) : Outcome α) := nofun

/-- **The two ways in which it ends.** -/
theorem Faultless.cases (h : Faultless r) : (∃ e, r = .error (.error e)) ∨ ∃ a, r = .ok a := by
  cases r with
  | ok a => exact .inr ⟨a, rfl⟩
  | error s =>
    cases s with
    | error e => exact .inl ⟨e, rfl⟩
    | fault f => exact absurd rfl (h f)

theorem faultless_map_iff (g : α → β) : Faultless (r.map g) ↔ Faultless r := by
  unfold Faultless
  cases r <;> simp [Except.map]

/-- What stops one computation stops the other. -/
theorem Faultless.error_of {s : Stop} (h : Faultless (.error s : Outcome α)) :
    Faultless (.error s : Outcome β) := by
  intro f hf
  cases hf
  exact h f rfl

/-- **Nothing but an error of the program** stops it. -/
theorem faultless_iff_raises : Faultless r ↔ Raises (fun s => ∃ e, s = .error e) r := by
  constructor
  · intro h s hs
    obtain ⟨e, he⟩ | ⟨a, ha⟩ := h.cases
    · exact ⟨e, Except.error.inj (hs.symm.trans he)⟩
    · cases hs.symm.trans ha
  · intro h f hf
    obtain ⟨e, he⟩ := h _ hf
    cases he

end Faultless

/-- **What is printed of a valid value** is a text. -/
theorem Value.Valid.faultless_printed {h : Heap} {v : Value} (hv : v.Valid h) :
    Faultless (v.printed h) := by
  -- Without a heap each text is there, so only the printing of a value could fail.
  rw [← printed_plain hv, faultless_iff_raises]
  exact raises_printed (fun _ _ => raises_ok _) () _

/-- **An expression comes to no fault** if its names are in the table and its variables are found. -/
theorem ExprAlike.faultless {R : Name → Name → Prop} {names : Interner}
    {env : Environment (Value String)} (hnames : ∀ x x', R x x' → Faultless (names.resolve x))
    (hlookup : ∀ x x', R x x' → Faultless ((env.lookup x).outcome names)) {e e' : Expr}
    (he : ExprAlike R e e') : Faultless (e.eval names env ()).1 := by
  -- All failures but faults are allowed, so what is left of them are the names and the variables.
  refine faultless_iff_raises.mpr ?_
  exact he.raises (fun e _ => ⟨e, rfl⟩) (fun _ _ => raises_ok _)
    (fun x x' hx => faultless_iff_raises.mp (hnames x x' hx))
    (fun x x' hx => faultless_iff_raises.mp (hlookup x x' hx)) ()

end Silly
