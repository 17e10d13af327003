import Silly.Proofs.Lexing.Kind
import Silly.Proofs.Lines
import Silly.Proofs.Tree.Names

/-!
# Nesting only indents

A statement is written with the same lines at every depth, but for the blanks in front of them: two for
each block around it. Line by line this holds of all trees (`Stmt.lines_add`), and it needs every line in
which a block ends or goes on to stand as deep as the one in which its statement began. In the text the
lines are still there to be seen if no line is broken by a name in it. So if no name in a statement has a
line break, its text at any depth is its text at depth zero with blanks put in front of each line.

The rest of a statement's text are the lines of its keywords, which stand as deep as the statement. Between
them are its blocks (`Stmt.pieces`), and a block is the texts of its statements, one after another, with two
blanks in front of each line.
-/

namespace Silly

/-! ### The names in a statement -/

/-- The names in an expression: those of its variables and those of its texts. -/
def Expr.names (e : Expr) : List Name := e.vars ++ e.texts

mutual
/-- **All names in a statement**, of variables, of subroutines and of texts. -/
def Stmt.names : Stmt → List Name
  | .assign x e | .declare x e => x :: e.names
  | .print e => e.names
  | .ifElse arms => arms.names
  | .whileDo e body | .repeatTimes e body => e.names ++ blockNames body
  | .sub x body => x :: blockNames body
  | .call x => [x]
  | .exit | .breakLoop => []

/-- The names in a chain of arms. -/
def Arms.names : Arms → List Name
  | .done => []
  | .otherwise body => blockNames body
  | .arm c body rest => c.names ++ (blockNames body ++ rest.names)

/-- The names in a block. -/
def blockNames : List Stmt → List Name
  | [] => []
  | s :: ss => s.names ++ blockNames ss
end

variable {text : Name → String}

/-! ### Lines at two depths -/

/-- A line that is moved by some blocks and then by others is moved by all of them. -/
theorem line_line (d k : Nat) (s : String) : line d (line k s) = line (d + k) s := by
  have hindent : indent d ++ indent k = indent (d + k) := by
    rw [indent, indent, indent, ← String.ofList_append, List.replicate_append_replicate, Nat.mul_add]
  rw [line, line, line, ← String.append_assoc, hindent]

mutual
/-- **Further in, a statement has the same lines**, each of them moved. -/
theorem Stmt.lines_add (d k : Nat) :
    ∀ s : Stmt, s.lines text (d + k) = (s.lines text k).map (line d)
  | .assign .. | .declare .. | .print _ | .call _ | .exit | .breakLoop => by
    simp only [Stmt.lines, List.map_cons, List.map_nil, line_line]
  | .ifElse arms => by
    simp only [Stmt.lines, arms.firstLines_add d k, List.map_append, List.map_cons, List.map_nil,
      line_line]
  | .whileDo _ body | .repeatTimes _ body | .sub _ body => by
    simp only [Stmt.lines, Nat.add_assoc d k 1, blockLines_add d (k + 1) body, List.map_append,
      List.map_cons, List.map_nil, line_line]

/-- The lines of the first branch and of those after it are moved as well. -/
theorem Arms.firstLines_add (d k : Nat) :
    ∀ arms : Arms, arms.firstLines text (d + k) = (arms.firstLines text k).map (line d)
  | .done => by simp only [Arms.firstLines, List.map_cons, List.map_nil, line_line]
  | .otherwise body => by
    simp only [Arms.firstLines, Nat.add_assoc d k 1, blockLines_add d (k + 1) body, List.map_cons,
      line_line]
  | .arm _ body rest => by
    simp only [Arms.firstLines, Nat.add_assoc d k 1, blockLines_add d (k + 1) body,
      rest.furtherLines_add d k, List.map_append, List.map_cons, line_line]

/-- So are the lines of the branches that follow another one. -/
theorem Arms.furtherLines_add (d k : Nat) :
    ∀ arms : Arms, arms.furtherLines text (d + k) = (arms.furtherLines text k).map (line d)
  | .done => rfl
  | .otherwise body => by
    simp only [Arms.furtherLines, Nat.add_assoc d k 1, blockLines_add d (k + 1) body, List.map_cons,
      line_line]
  | .arm _ body rest => by
    simp only [Arms.furtherLines, Nat.add_assoc d k 1, blockLines_add d (k + 1) body,
      rest.furtherLines_add d k, List.map_append, List.map_cons, line_line]

/-- So are the lines of a block, one statement after the other. -/
theorem blockLines_add (d k : Nat) :
    ∀ ss : List Stmt, blockLines text (d + k) ss = (blockLines text k ss).map (line d)
  | [] => rfl
  | s :: ss => by
    simp only [blockLines, s.lines_add d k, blockLines_add d k ss, List.map_append]
end

/-! ### Lines without breaks -/

/-- Blanks in front do not break a line. -/
theorem OneLine.line {s : String} (h : OneLine s) (d : Nat) : OneLine (line d s) := by
  have hindent : OneLine (indent d) := by
    intro hbreak
    rw [indent, String.toList_ofList] at hbreak
    exact absurd (List.eq_of_mem_replicate hbreak) (by decide)
  exact hindent.append h

mutual
/-- **An expression stands on one line** if each name in it does. -/
theorem Expr.oneLine_display : ∀ e : Expr, (∀ x ∈ e.vars, OneLine (text x)) →
    (∀ x ∈ e.texts, OneLine (text x)) → OneLine (e.display text)
  -- The digits of a number, and a minus in front, are no break.
  | .int n, _, _ => by
    intro hbreak
    obtain hminus | hdigit := Integer.eq_or_isDigit_of_mem_text hbreak
    · exact absurd hminus (by decide)
    · exact absurd hdigit (by decide)
  | .bool b, _, _ => by
    have hbool : ∀ b, OneLine (boolText b) := by decide
    exact hbool b
  | .str x, _, ht => by
    have hx : OneLine (text x) := ht x (List.mem_singleton_self x)
    have hquote : OneLine "\"" := by decide
    exact (hquote.append hx).append hquote
  | .var x, hv, _ => hv x (List.mem_singleton_self x)
  | .list es, hv, ht => by
    have hitems : OneLine (" ".intercalate (displayItems text es)) :=
      .intercalate (by decide) (oneLine_displayItems es hv ht)
    have hopen : OneLine "[" := by decide
    exact (hopen.append hitems).append (by decide)
  -- A sign stands before what it is applied to.
  | .unary op e, hv, ht => by
    have hop : OneLine ("(" ++ op.symbol ++ " ") := by cases op <;> decide
    exact (hop.append (e.oneLine_display hv ht)).append (by decide)
  -- An operator stands between blanks, and these between its operands.
  | .binary op l r, hv, ht => by
    obtain ⟨hvl, hvr⟩ := List.forall_mem_append.mp hv
    obtain ⟨htl, htr⟩ := List.forall_mem_append.mp ht
    have hblank : OneLine " " := by decide
    have hop : OneLine op.symbol := by cases op <;> decide
    have hleft : OneLine ("(" ++ l.display text ++ " ") :=
      (l.oneLine_display hvl htl).between (by decide) hblank
    exact (((hleft.append hop).append hblank).append (r.oneLine_display hvr htr)).append (by decide)

/-- The items of a list stand on one line each if the names in them do. -/
theorem oneLine_displayItems : ∀ es : List Expr, (∀ x ∈ itemsVars es, OneLine (text x)) →
    (∀ x ∈ itemsTexts es, OneLine (text x)) → ∀ s ∈ displayItems text es, OneLine s
  | [], _, _ => fun _ hs => absurd hs List.not_mem_nil
  | e :: es, hv, ht => by
    obtain ⟨hve, hves⟩ := List.forall_mem_append.mp hv
    obtain ⟨hte, htes⟩ := List.forall_mem_append.mp ht
    exact List.forall_mem_cons.mpr ⟨e.oneLine_display hve hte, oneLine_displayItems es hves htes⟩
end

theorem Expr.oneLine {e : Expr} (h : ∀ x ∈ e.names, OneLine (text x)) : OneLine (e.display text) := by
  obtain ⟨hv, ht⟩ := List.forall_mem_append.mp h
  exact e.oneLine_display hv ht

/-- The lines of a statement that has one block. -/
theorem oneLine_headed {head last : String} {inner : List String} (hhead : OneLine head)
    (hinner : ∀ l ∈ inner, OneLine l) (hlast : OneLine last) (d : Nat) :
    ∀ l ∈ line d head :: (inner ++ [line d last]), OneLine l := by
  refine List.forall_mem_cons.mpr ⟨hhead.line d, List.forall_mem_append.mpr ⟨hinner, ?_⟩⟩
  exact List.forall_mem_singleton.mpr (hlast.line d)

mutual
/-- **No line of a statement is broken** if no name in it is. -/
theorem Stmt.oneLine_lines (d : Nat) : ∀ s : Stmt, (∀ x ∈ s.names, OneLine (text x)) →
    ∀ l ∈ s.lines text d, OneLine l
  | .assign x e, h => by
    obtain ⟨hx, he⟩ := List.forall_mem_cons.mp h
    have hgets : OneLine (text x ++ " gets ") := hx.append (by decide)
    exact List.forall_mem_singleton.mpr ((hgets.append (Expr.oneLine he)).line d)
  | .declare x e, h => by
    obtain ⟨hx, he⟩ := List.forall_mem_cons.mp h
    have hgets : OneLine ("var " ++ text x ++ " gets ") := hx.between (by decide) (by decide)
    exact List.forall_mem_singleton.mpr ((hgets.append (Expr.oneLine he)).line d)
  | .print e, h => by
    have hprint : OneLine ("print " ++ e.display text) := OneLine.append (by decide) (Expr.oneLine h)
    exact List.forall_mem_singleton.mpr (hprint.line d)
  -- The lines of the branches, and one for the end.
  | .ifElse arms, h => by
    have hlast : OneLine "endif" := by decide
    refine List.forall_mem_append.mpr ⟨arms.oneLine_firstLines d h, ?_⟩
    exact List.forall_mem_singleton.mpr (hlast.line d)
  -- A loop and a subroutine have a line for the header, the lines of the block, and a line for the end.
  | .whileDo e body, h => by
    obtain ⟨he, hbody⟩ := List.forall_mem_append.mp h
    exact oneLine_headed ((Expr.oneLine he).between (by decide) (by decide))
      (oneLine_blockLines (d + 1) body hbody) (by decide) d
  | .repeatTimes e body, h => by
    obtain ⟨he, hbody⟩ := List.forall_mem_append.mp h
    exact oneLine_headed ((Expr.oneLine he).between (by decide) (by decide))
      (oneLine_blockLines (d + 1) body hbody) (by decide) d
  | .sub x body, h => by
    obtain ⟨hx, hbody⟩ := List.forall_mem_cons.mp h
    exact oneLine_headed (OneLine.append (by decide) hx) (oneLine_blockLines (d + 1) body hbody)
      (by decide) d
  | .call x, h => by
    have hcall : OneLine ("call " ++ text x) :=
      OneLine.append (by decide) (h x (List.mem_singleton_self x))
    exact List.forall_mem_singleton.mpr (hcall.line d)
  | .exit, _ => by
    have hexit : OneLine "exit" := by decide
    exact List.forall_mem_singleton.mpr (hexit.line d)
  | .breakLoop, _ => by
    have hbreak : OneLine "break" := by decide
    exact List.forall_mem_singleton.mpr (hbreak.line d)

/-- No line of the branches is broken, the one that is empty included. -/
theorem Arms.oneLine_firstLines (d : Nat) : ∀ arms : Arms, (∀ x ∈ arms.names, OneLine (text x)) →
    ∀ l ∈ arms.firstLines text d, OneLine l
  | .done, _ => by
    have hempty : OneLine "" := by decide
    exact List.forall_mem_singleton.mpr (hempty.line d)
  | .otherwise body, h => by
    have hempty : OneLine "" := by decide
    exact List.forall_mem_cons.mpr
      ⟨hempty.line d, (Arms.otherwise body).oneLine_furtherLines d h⟩
  -- The line with the condition, the lines of the body, and those of the branches after it.
  | .arm c body rest, h => by
    obtain ⟨hc, hrest⟩ := List.forall_mem_append.mp h
    obtain ⟨hbody, hrest⟩ := List.forall_mem_append.mp hrest
    have hhead : OneLine ("if " ++ c.display text ++ " then") :=
      (Expr.oneLine hc).between (by decide) (by decide)
    refine List.forall_mem_cons.mpr ⟨hhead.line d, List.forall_mem_append.mpr ⟨?_, ?_⟩⟩
    · exact oneLine_blockLines (d + 1) body hbody
    · exact rest.oneLine_furtherLines d hrest

/-- No line of the branches after another one is broken. -/
theorem Arms.oneLine_furtherLines (d : Nat) : ∀ arms : Arms,
    (∀ x ∈ arms.names, OneLine (text x)) → ∀ l ∈ arms.furtherLines text d, OneLine l
  | .done, _ => fun _ hl => absurd hl List.not_mem_nil
  | .otherwise body, h => by
    have helse : OneLine "else" := by decide
    exact List.forall_mem_cons.mpr ⟨helse.line d, oneLine_blockLines (d + 1) body h⟩
  | .arm c body rest, h => by
    obtain ⟨hc, hrest⟩ := List.forall_mem_append.mp h
    obtain ⟨hbody, hrest⟩ := List.forall_mem_append.mp hrest
    have hhead : OneLine ("elseif " ++ c.display text ++ " then") :=
      (Expr.oneLine hc).between (by decide) (by decide)
    refine List.forall_mem_cons.mpr ⟨hhead.line d, List.forall_mem_append.mpr ⟨?_, ?_⟩⟩
    · exact oneLine_blockLines (d + 1) body hbody
    · exact rest.oneLine_furtherLines d hrest

/-- No line of a block is broken. -/
theorem oneLine_blockLines (d : Nat) : ∀ ss : List Stmt, (∀ x ∈ blockNames ss, OneLine (text x)) →
    ∀ l ∈ blockLines text d ss, OneLine l
  | [], _ => fun _ hl => absurd hl List.not_mem_nil
  | s :: ss, h => by
    obtain ⟨hs, hss⟩ := List.forall_mem_append.mp h
    exact List.forall_mem_append.mpr ⟨s.oneLine_lines d hs, oneLine_blockLines d ss hss⟩
end

theorem Arms.firstLines_ne_nil (d : Nat) (arms : Arms) : arms.firstLines text d ≠ [] := by
  cases arms <;> exact List.cons_ne_nil _ _

/-- A statement has a line. -/
theorem Stmt.lines_ne_nil (d : Nat) (s : Stmt) : s.lines text d ≠ [] := by
  cases s with
  | ifElse arms => exact List.append_ne_nil_of_left_ne_nil (arms.firstLines_ne_nil d) _
  | _ => exact List.cons_ne_nil _ _

/-- **The lines of a displayed statement** are those that are written. -/
theorem Stmt.textLines_display {s : Stmt} (h : ∀ x ∈ s.names, OneLine (text x)) :
    textLines (s.display text) = s.lines text 0 :=
  textLines_unlines (s.lines_ne_nil 0) (s.oneLine_lines 0 h)

/-! ### Pieces -/

/-- **A piece of a statement's text**: a line of its own, or a block. -/
inductive Piece
  | own (l : String)
  | block (body : Block)

/-- The lines of a piece. Those of a block are the lines of its statements, each displayed alone, with two
blanks in front of every line. -/
def Piece.lines (text : Name → String) : Piece → List String
  | own l => [l]
  | block body => body.flatMap fun s => (textLines (s.display text)).map ("  " ++ ·)

/-- The pieces of an arm whose line begins with the given word. -/
def armPieces (text : Name → String) (word : String) (arm : Expr × Block) : List Piece :=
  [.own (word ++ arm.1.display text ++ " then"), .block arm.2]

/-- The pieces of a chain of arms that goes on after an arm of the same `if`: those of its branches, and
those of an `else` body if there is one. -/
def Arms.furtherPieces (text : Name → String) (arms : Arms) : List Piece :=
  arms.branches.flatMap (armPieces text "elseif ") ++
    match arms.else? with
    | none => []
    | some body => [.own "else", .block body]

/-- **The pieces of a statement.** An `if` without a branch has an empty line where the first branch would
begin. -/
def Stmt.pieces (text : Name → String) : Stmt → List Piece
  | .assign x e => [.own (text x ++ " gets " ++ e.display text)]
  | .declare x e => [.own ("var " ++ text x ++ " gets " ++ e.display text)]
  | .print e => [.own ("print " ++ e.display text)]
  | .ifElse (.arm c body rest) =>
    armPieces text "if " (c, body) ++ (rest.furtherPieces text ++ [.own "endif"])
  | .ifElse last => .own "" :: (last.furtherPieces text ++ [.own "endif"])
  | .whileDo c body => [.own ("while " ++ c.display text ++ " do"), .block body, .own "endwhile"]
  | .repeatTimes n body =>
    [.own ("repeat " ++ n.display text ++ " times"), .block body, .own "endrepeat"]
  | .sub x body => [.own ("sub " ++ text x), .block body, .own "endsub"]
  | .call x => [.own ("call " ++ text x)]
  | .exit => [.own "exit"]
  | .breakLoop => [.own "break"]

/-- **A block is written** as the texts of its statements, each line moved by one block. -/
theorem blockLines_eq : ∀ {body : Block}, (∀ x ∈ blockNames body, OneLine (text x)) →
    blockLines text 1 body = (Piece.block body).lines text
  | [], _ => rfl
  | s :: ss, h => by
    obtain ⟨hs, hss⟩ := List.forall_mem_append.mp h
    -- The lines of the first statement are moved by one block, and these are the lines that its own
    -- text has.
    calc blockLines text 1 (s :: ss)
      _ = s.lines text (1 + 0) ++ blockLines text 1 ss := rfl
      _ = (textLines (s.display text)).map (line 1) ++ blockLines text 1 ss := by
          rw [s.lines_add 1 0, Stmt.textLines_display hs]
      _ = (textLines (s.display text)).map (line 1) ++ (Piece.block ss).lines text := by
          rw [blockLines_eq hss]
      _ = (Piece.block (s :: ss)).lines text := rfl

/-- A line with a block after it, and what comes then. -/
theorem flatMap_lines_own (l : String) {body : Block} (h : ∀ x ∈ blockNames body, OneLine (text x))
    (ps : List Piece) :
    (.own l :: .block body :: ps).flatMap (Piece.lines text) =
      l :: (blockLines text 1 body ++ ps.flatMap (Piece.lines text)) := by
  rw [blockLines_eq h]
  rfl

/-- **The branches after another one are written** piece by piece. -/
theorem Arms.furtherLines_eq : ∀ {arms : Arms}, (∀ x ∈ arms.names, OneLine (text x)) →
    arms.furtherLines text 0 = (arms.furtherPieces text).flatMap (Piece.lines text)
  | .done, _ => rfl
  -- The last body has no condition, and nothing comes after it.
  | .otherwise body, h => by
    have hpieces := flatMap_lines_own "else" h []
    rw [List.flatMap_nil, List.append_nil] at hpieces
    exact hpieces.symm
  -- The line with the condition, the body, and the pieces of the branches after it.
  | .arm c body rest, h => by
    obtain ⟨hbody, hrest⟩ := List.forall_mem_append.mp (List.forall_mem_append.mp h).2
    have hpieces := flatMap_lines_own ("elseif " ++ c.display text ++ " then") hbody
      (rest.furtherPieces text)
    rw [← furtherLines_eq hrest] at hpieces
    exact hpieces.symm

/-- **A statement is written piece by piece.** -/
theorem Stmt.lines_eq_pieces {s : Stmt} (h : ∀ x ∈ s.names, OneLine (text x)) :
    s.lines text 0 = (s.pieces text).flatMap (Piece.lines text) := by
  -- By the kind of statement: one line, branches, or a header with one block.
  cases s with
  | assign | declare | print | call | exit | breakLoop => rfl
  | ifElse arms =>
    cases arms with
    | done => rfl
    -- Without a branch the first line is empty, and what follows is written as after a branch.
    | otherwise body =>
      have hpieces := flatMap_lines_own "else" h [.own "endif"]
      exact congrArg ("" :: ·) hpieces.symm
    | arm c body rest =>
      obtain ⟨hbody, hrest⟩ := List.forall_mem_append.mp (List.forall_mem_append.mp h).2
      have hpieces := flatMap_lines_own ("if " ++ c.display text ++ " then") hbody
        (rest.furtherPieces text ++ [.own "endif"])
      rw [List.flatMap_append, ← Arms.furtherLines_eq hrest, ← List.append_assoc] at hpieces
      exact hpieces.symm
  | whileDo c body =>
    have hbody := (List.forall_mem_append.mp h).2
    exact (flatMap_lines_own ("while " ++ c.display text ++ " do") hbody [.own "endwhile"]).symm
  | repeatTimes n body =>
    have hbody := (List.forall_mem_append.mp h).2
    exact (flatMap_lines_own ("repeat " ++ n.display text ++ " times") hbody [.own "endrepeat"]).symm
  | sub x body =>
    have hbody := (List.forall_mem_cons.mp h).2
    exact (flatMap_lines_own ("sub " ++ text x) hbody [.own "endsub"]).symm

/-! ### The text of a statement -/

/-- **Nesting only indents.** Where no name in a statement has a line break, the text of the statement at
each depth is its text at depth zero with two blanks for each block in front of every line. At depth zero
the text consists of the pieces of the statement, where a block is the texts of its statements, displayed
alone and in order, with two blanks in front of every line. -/
theorem nesting_only_indents {s : Stmt} (h : ∀ x ∈ s.names, OneLine (text x)) :
    (∀ d, unlines (s.lines text d) = unlines ((textLines (s.display text)).map (indent d ++ ·))) ∧
      textLines (s.display text) = (s.pieces text).flatMap (Piece.lines text) := by
  refine ⟨fun d => ?_, ?_⟩
  -- The lines of the text are those that are written at depth zero.
  · rw [Stmt.textLines_display h]
    exact congrArg unlines (s.lines_add d 0)
  · rw [Stmt.textLines_display h]
    exact Stmt.lines_eq_pieces h

/-- An `if` with no branch and a subroutine in its `else` body, all in another subroutine. The empty line
where the first branch would begin is moved like the others. -/
theorem nesting_only_indents_branchless :
    let text (x : Name) : String := if x.index = 0 then "f" else "a b"
    let inner : Stmt := .sub ⟨0⟩ [.print (.str ⟨1⟩)]
    let s : Stmt := .sub ⟨0⟩ [.ifElse (.otherwise [inner]), .breakLoop]
    (∀ x ∈ s.names, OneLine (text x)) ∧
      s.display text = "sub f\n  \n  else\n    sub f\n      print \"a b\"\n    endsub\n  endif\n" ++
        "  break\nendsub" ∧
      (∀ d, unlines (s.lines text d) = unlines ((textLines (s.display text)).map (indent d ++ ·))) ∧
      textLines (s.display text) = (s.pieces text).flatMap (Piece.lines text) := by
  intro text inner s
  have h : ∀ x ∈ s.names, OneLine (text x) := by decide
  exact ⟨h, by decide +kernel, nesting_only_indents h⟩

end Silly
