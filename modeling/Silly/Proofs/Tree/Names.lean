import Silly.Proofs.Tree.Alike

/-!
# The names in an expression

An expression holds names for two purposes: a name is that of a variable, or it stands for the text of a
string literal. What an expression needs of its variables (`Expr.vars`) is not what it needs of its
literals (`Expr.texts`), although both are numbered by one table.
-/

namespace Silly

mutual
/-- **The variables that an expression reads**, from left to right. -/
def Expr.vars : Expr → List Name
  | .int _ | .bool _ | .str _ => []
  | .var x => [x]
  | .list items => itemsVars items
  | .unary _ e => e.vars
  | .binary _ l r => l.vars ++ r.vars

/-- The variables that the items of a list read. -/
def itemsVars : List Expr → List Name
  | [] => []
  | e :: es => e.vars ++ itemsVars es
end

mutual
/-- **The names of the texts of an expression's literals**, from left to right. -/
def Expr.texts : Expr → List Name
  | .int _ | .bool _ | .var _ => []
  | .str x => [x]
  | .list items => itemsTexts items
  | .unary _ e => e.texts
  | .binary _ l r => l.texts ++ r.texts

/-- The names of the texts of the literals in the items of a list. -/
def itemsTexts : List Expr → List Name
  | [] => []
  | e :: es => e.texts ++ itemsTexts es
end

/-! ### Alike expressions -/

variable {R : Name → Name → Prop}

mutual
/-- Each variable of an expression has a counterpart in every expression that is alike. -/
theorem ExprAlike.exists_of_mem_vars {x : Name} : ∀ {e e' : Expr}, ExprAlike R e e' →
    x ∈ e.vars → ∃ x', R x x'
  | _, _, .int _, hx | _, _, .bool _, hx | _, _, .str _, hx => absurd hx List.not_mem_nil
  | _, _, @ExprAlike.var _ _ x' hR, hx => ⟨x', List.mem_singleton.mp hx ▸ hR⟩
  | _, _, .list hes, hx => hes.exists_of_mem_vars hx
  | _, _, .unary _ he, hx => he.exists_of_mem_vars hx
  | _, _, .binary _ hl hr, hx =>
    (List.mem_append.mp hx).elim hl.exists_of_mem_vars hr.exists_of_mem_vars

theorem ItemsAlike.exists_of_mem_vars {x : Name} : ∀ {es es' : List Expr}, ItemsAlike R es es' →
    x ∈ itemsVars es → ∃ x', R x x'
  | _, _, .nil, hx => absurd hx List.not_mem_nil
  | _, _, .cons he hes, hx =>
    (List.mem_append.mp hx).elim he.exists_of_mem_vars hes.exists_of_mem_vars
end

mutual
/-- Each text of a literal has a counterpart too. -/
theorem ExprAlike.exists_of_mem_texts {x : Name} : ∀ {e e' : Expr}, ExprAlike R e e' →
    x ∈ e.texts → ∃ x', R x x'
  | _, _, .int _, hx | _, _, .bool _, hx | _, _, .var _, hx => absurd hx List.not_mem_nil
  | _, _, @ExprAlike.str _ _ x' hR, hx => ⟨x', List.mem_singleton.mp hx ▸ hR⟩
  | _, _, .list hes, hx => hes.exists_of_mem_texts hx
  | _, _, .unary _ he, hx => he.exists_of_mem_texts hx
  | _, _, .binary _ hl hr, hx =>
    (List.mem_append.mp hx).elim hl.exists_of_mem_texts hr.exists_of_mem_texts

theorem ItemsAlike.exists_of_mem_texts {x : Name} : ∀ {es es' : List Expr}, ItemsAlike R es es' →
    x ∈ itemsTexts es → ∃ x', R x x'
  | _, _, .nil, hx => absurd hx List.not_mem_nil
  | _, _, .cons he hes, hx =>
    (List.mem_append.mp hx).elim he.exists_of_mem_texts hes.exists_of_mem_texts
end

end Silly
