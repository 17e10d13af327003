import Silly.Proofs.Grammar.Derivation
import Silly.Proofs.Tree.Parts

/-!
# Where the statements of a tree stand

A tree does not say where its parts stand among the tokens that it was read from, and need not: each
construct has as many tokens as its tree tells (`Stmt.width`). So the statements of a tree can be listed
with their places (`Program.nodes`), each after the statements inside of it, and otherwise in order. Every
statement of the tree is in the list once (`Program.nodes_perm_parts`), and the tokens at its place derive
it (`DerivesProgram.located`).
-/

namespace Silly

/-! ### How many tokens a tree has -/

mutual
/-- How many tokens an expression has. -/
def Expr.width : Expr → Nat
  | .int _ | .bool _ | .str _ | .var _ => 1
  -- Besides its parts, a list has its brackets, and an operation its parentheses and its operator.
  | .list items => itemsWidth items + 2
  | .unary _ e => e.width + 3
  | .binary _ e₁ e₂ => e₁.width + e₂.width + 3

/-- How many tokens the items of a list have. -/
def itemsWidth : List Expr → Nat
  | [] => 0
  | e :: es => e.width + itemsWidth es
end

mutual
/-- **How many tokens a statement has.** -/
def Stmt.width : Stmt → Nat
  | .assign _ e => e.width + 2
  | .declare _ e => e.width + 3
  | .print e => e.width + 1
  -- The first word of an `if` is counted with its first arm.
  | .ifElse arms => arms.width
  | .whileDo c body | .repeatTimes c body => c.width + blockWidth body + 3
  | .sub _ body => blockWidth body + 3
  | .call _ => 2
  | .exit | .breakLoop => 1

/-- How many tokens the arms of an `if` have, with the word before each of them and the last one. -/
def Arms.width : Arms → Nat
  | .done => 1
  | .otherwise body => blockWidth body + 2
  | .arm c body rest => c.width + blockWidth body + rest.width + 2

/-- How many tokens the statements of a block have. -/
def blockWidth : List Stmt → Nat
  | [] => 0
  | s :: ss => s.width + blockWidth ss
end

theorem Stmt.width_pos (s : Stmt) : 0 < s.width := by
  cases s with
  | ifElse arms => cases arms <;> simp [width, Arms.width]
  | _ => simp [width]

variable {name : String → Name}

mutual
/-- **An expression has as many tokens as its tree tells.** -/
theorem DerivesExpr.length_eq {us : List Token} {e : Expr} : DerivesExpr name us e → us.length = e.width
  | .var _ | .int _ _ | .str _ | .bool _ => rfl
  | .unary _ _ he _ => by simp [Expr.width, he.length_eq]
  | .binary _ h₁ _ h₂ _ => by
    simp only [Expr.width, List.length_cons, List.length_append, List.length_nil, h₁.length_eq,
      h₂.length_eq]
    omega
  | .list _ hes _ => by simp [Expr.width, hes.length_eq]

theorem DerivesItems.length_eq {us : List Token} {es : List Expr} :
    DerivesItems name us es → us.length = itemsWidth es
  | .nil => rfl
  | .cons he hes => by simp [itemsWidth, he.length_eq, hes.length_eq]
end

mutual
/-- **A statement has as many tokens as its tree tells.** -/
theorem DerivesStmt.length_eq {us : List Token} {s : Stmt} : DerivesStmt name us s → us.length = s.width
  | .assign _ _ he => by simp [Stmt.width, he.length_eq]
  | .declare _ _ _ he => by simp [Stmt.width, he.length_eq]
  | .print _ he => by simp [Stmt.width, he.length_eq]
  | .ifElse _ hc _ hb hr => by
    simp only [Stmt.width, Arms.width, List.length_cons, List.length_append, hc.length_eq,
      hb.length_eq, hr.length_eq]
    omega
  | .whileDo _ hc _ hb _ | .repeatTimes _ hc _ hb _ => by
    simp only [Stmt.width, List.length_cons, List.length_append, List.length_nil, hc.length_eq,
      hb.length_eq]
    omega
  | .call _ _ | .exit _ | .breakLoop _ => rfl

/-- So has a chain of arms. -/
theorem DerivesArms.length_eq {us : List Token} {arms : Arms} :
    DerivesArms name us arms → us.length = arms.width
  | .done _ => rfl
  | .otherwise _ hb _ => by simp [Arms.width, hb.length_eq]
  | .arm _ hc _ hb hr => by
    simp only [Arms.width, List.length_cons, List.length_append, hc.length_eq, hb.length_eq,
      hr.length_eq]
    omega

theorem DerivesBlock.length_eq {us : List Token} {ss : List Stmt} :
    DerivesBlock name us ss → us.length = blockWidth ss
  | .nil => rfl
  | .cons hs hss => by simp [blockWidth, hs.length_eq, hss.length_eq]
end

theorem DerivesTop.length_eq {us : List Token} {s : Stmt} (h : DerivesTop name us s) :
    us.length = s.width := by
  cases h with
  | stmt hs => exact hs.length_eq
  | sub _ _ hb _ => simp [Stmt.width, hb.length_eq]

/-! ### Statements with their places -/

/-- **A statement of a tree**, with the place of its first token and the one after its last. -/
structure Node where
  stmt : Stmt
  first : Nat
  stop : Nat

mutual
/-- The statements inside of one whose first token is at `i`. -/
def Stmt.innerNodes (i : Nat) : Stmt → List Node
  | .ifElse arms => arms.nodes i
  | .whileDo c body | .repeatTimes c body => blockNodes (i + (c.width + 2)) body
  | .sub _ body => blockNodes (i + 2) body
  | .assign _ _ | .declare _ _ | .print _ | .call _ | .exit | .breakLoop => []

/-- The statements in the arms of an `if`, where the word before the first one is at `i`. -/
def Arms.nodes (i : Nat) : Arms → List Node
  | .done => []
  | .otherwise body => blockNodes (i + 1) body
  | .arm c body rest =>
    blockNodes (i + (c.width + 2)) body ++ rest.nodes (i + (c.width + 2) + blockWidth body)

/-- **The statements of a block** whose first token is at `i`: each one after those inside of it. -/
def blockNodes (i : Nat) : List Stmt → List Node
  | [] => []
  | s :: ss => s.innerNodes i ++ ⟨s, i, i + s.width⟩ :: blockNodes (i + s.width) ss
end

/-- **All statements of a program with their places**, each one after those inside of it. -/
def Program.nodes (p : Program) : List Node := blockNodes 0 p

-- The one list has a statement before those inside of it, and the other one after them.
mutual
/-- A statement and those inside of it, in either order. -/
theorem Stmt.nodes_perm_parts (s : Stmt) (i : Nat) (looped : Bool) :
    (s :: (s.innerNodes i).map (·.stmt)).Perm ((s.parts looped).map (·.2)) := by
  cases s with
  | ifElse arms => exact (arms.nodes_perm_parts i looped).cons _
  | whileDo c body => exact (blockNodes_perm_parts body _ true).cons _
  | repeatTimes c body => exact (blockNodes_perm_parts body _ true).cons _
  | sub x body => exact (blockNodes_perm_parts body _ false).cons _
  | _ => exact .refl _

/-- The statements in a chain of arms, in either order. -/
theorem Arms.nodes_perm_parts (arms : Arms) (i : Nat) (looped : Bool) :
    ((arms.nodes i).map (·.stmt)).Perm ((arms.parts looped).map (·.2)) := by
  cases arms with
  | done => exact .refl _
  | otherwise body => exact blockNodes_perm_parts body _ looped
  | arm c body rest =>
    simp only [Arms.nodes, Arms.parts, List.map_append]
    exact (blockNodes_perm_parts body _ looped).append (rest.nodes_perm_parts _ looped)

/-- The statements of a block, in either order. -/
theorem blockNodes_perm_parts (ss : List Stmt) (i : Nat) (looped : Bool) :
    ((blockNodes i ss).map (·.stmt)).Perm ((blockParts looped ss).map (·.2)) := by
  cases ss with
  | nil => exact .refl _
  | cons s ss =>
    simp only [blockNodes, blockParts, List.map_append, List.map_cons]
    -- The statement that comes first in the one list comes after those inside of it in the other.
    have hss := blockNodes_perm_parts ss (i + s.width) looped
    exact List.perm_middle.trans (((s.nodes_perm_parts i looped).append hss))
end

/-- **Every statement of a program** is in the list once. -/
theorem Program.nodes_perm_parts (p : Program) :
    (p.nodes.map (·.stmt)).Perm (p.parts.map (·.2)) := blockNodes_perm_parts p 0 false

/-! ### The tokens at a place -/

namespace Node

/-- **The tokens at the place of a statement.** -/
def tokens (all : List Token) (n : Node) : List Token := (all.take n.stop).drop n.first

/-- **The tokens at the place of a statement derive it.** -/
def Located (name : String → Name) (all : List Token) (n : Node) : Prop :=
  DerivesTop name (n.tokens all) n.stmt

/-- What comes after a statement does not matter. -/
theorem tokens_congr {all all' : List Token} {n : Node} {k : Nat} (h : all.take k = all'.take k)
    (hn : n.stop ≤ k) : n.tokens all = n.tokens all' := by
  have htake := congrArg (List.take n.stop) h
  rw [List.take_take, List.take_take, Nat.min_eq_left hn] at htake
  rw [tokens, htake, tokens]

end Node

section Located

variable {all ts : List Token} {i : Nat}

/-- What comes after the tokens `us` at the place `i`. -/
theorem drop_after {us : List Token} {m : Nat} (h : all.drop i = us ++ ts) (hm : us.length = m) :
    all.drop (i + m) = ts := by
  rw [← List.drop_drop, h, ← hm, List.drop_left]

/-- What comes after a word, a condition and another word. -/
theorem DerivesExpr.drop_header {us : List Token} {c : Expr} {l t : Token}
    (hc : DerivesExpr name us c) (h : all.drop i = l :: (us ++ t :: ts)) :
    all.drop (i + (c.width + 2)) = ts := by
  -- The word, the condition and the word after it are cut off together.
  have hcut : all.drop i = (l :: us ++ [t]) ++ ts := by simp [h]
  exact drop_after hcut (by simp [hc.length_eq])

/-- A statement that is derived by the tokens at the place `i`. -/
theorem DerivesTop.located_at {us : List Token} {s : Stmt} (hs : DerivesTop name us s)
    (h : all.drop i = us ++ ts) : Node.Located name all ⟨s, i, i + s.width⟩ := by
  rw [Node.Located, Node.tokens, List.drop_take, h, Nat.add_sub_cancel_left,
    List.take_left' hs.length_eq]
  exact hs

-- The hypothesis says what stands at the place and after it, so it tells the same of each part. The part
-- ends where the next one begins, by the number of its tokens.
mutual
/-- **The statements inside of a statement** stand where their tokens are. -/
theorem DerivesStmt.located_inner {us ts : List Token} {s : Stmt} {i : Nat}
    (h : all.drop i = us ++ ts) :
    DerivesStmt name us s → ∀ n ∈ s.innerNodes i, n.Located name all
  | .assign .. | .declare .. | .print .. | .call .. | .exit _ | .breakLoop _ => by
    simp [Stmt.innerNodes]
  | .ifElse _ hc _ hb hr => by
    -- The body comes after the condition, and the other arms after the body.
    rw [List.cons_append, List.append_assoc, List.cons_append] at h
    have hbody := hc.drop_header h
    rw [List.append_assoc] at hbody
    have hrest := drop_after hbody hb.length_eq
    exact List.forall_mem_append.mpr ⟨hb.located hbody, hr.located hrest⟩
  | .whileDo _ hc _ hb _ | .repeatTimes _ hc _ hb _ => by
    rw [List.cons_append, List.append_assoc, List.cons_append] at h
    have hbody := hc.drop_header h
    rw [List.append_assoc] at hbody
    exact hb.located hbody

/-- So do those in a chain of arms. -/
theorem DerivesArms.located {us ts : List Token} {arms : Arms} {i : Nat}
    (h : all.drop i = us ++ ts) :
    DerivesArms name us arms → ∀ n ∈ arms.nodes i, n.Located name all
  | .done _ => by simp [Arms.nodes]
  | .otherwise (l := l) _ hb _ => by
    rw [List.cons_append, List.append_assoc] at h
    have hcut : all.drop i = [l] ++ (_ ++ _) := h
    exact hb.located (drop_after hcut rfl)
  | .arm _ hc _ hb hr => by
    rw [List.cons_append, List.append_assoc, List.cons_append] at h
    have hbody := hc.drop_header h
    rw [List.append_assoc] at hbody
    have hrest := drop_after hbody hb.length_eq
    exact List.forall_mem_append.mpr ⟨hb.located hbody, hr.located hrest⟩

/-- So do those of a block. -/
theorem DerivesBlock.located {us ts : List Token} {ss : List Stmt} {i : Nat}
    (h : all.drop i = us ++ ts) :
    DerivesBlock name us ss → ∀ n ∈ blockNodes i ss, n.Located name all
  | .nil => by simp [blockNodes]
  | .cons hs hss => by
    rw [List.append_assoc] at h
    have hrest := drop_after h hs.length_eq
    exact List.forall_mem_append.mpr ⟨hs.located_inner h,
      List.forall_mem_cons.mpr ⟨(DerivesTop.stmt hs).located_at h, hss.located hrest⟩⟩
end

/-- So do those inside of a statement at the top level. -/
theorem DerivesTop.located_inner {us : List Token} {s : Stmt} (hs : DerivesTop name us s)
    (h : all.drop i = us ++ ts) : ∀ n ∈ s.innerNodes i, n.Located name all := by
  cases hs with
  | stmt hs => exact hs.located_inner h
  | @sub k x _ _ _ _ _ hb _ =>
    -- The body of a subroutine comes after the word and the name.
    rw [List.cons_append, List.cons_append, List.append_assoc] at h
    have hcut : all.drop i = [k, x] ++ (_ ++ _) := h
    exact hb.located (drop_after hcut rfl)

/-- So do those of a program, wherever its tokens are. -/
theorem DerivesProgram.located_from {us : List Token} {p : Program} (hp : DerivesProgram name us p)
    (h : all.drop i = us ++ ts) : ∀ n ∈ blockNodes i p, n.Located name all := by
  -- By induction on the derivation, with the place of each statement after the one before.
  induction hp generalizing i with
  | nil => simp [blockNodes]
  | cons hs _ ih =>
    rw [List.append_assoc] at h
    have hrest := drop_after h hs.length_eq
    exact List.forall_mem_append.mpr ⟨hs.located_inner h,
      List.forall_mem_cons.mpr ⟨hs.located_at h, ih hrest⟩⟩

/-- **The tokens at the place of each statement of a program derive it.** -/
theorem DerivesProgram.located {us : List Token} {p : Program} (hp : DerivesProgram name us p) :
    ∀ n ∈ p.nodes, n.Located name us := by
  have hall : us.drop 0 = us ++ [] := (List.append_nil us).symm
  exact hp.located_from hall

end Located

end Silly
