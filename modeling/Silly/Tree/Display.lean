import Silly.Tree.Basic
import Silly.Integer

/-!
# The canonical text of a tree

Every tree has one text. An expression is written on one line, with one space between its parts
and with parentheses around each operation. A statement is written as a list of lines. Each line
of a block stands two spaces further in than the keywords around it.

Nothing is escaped, neither in names nor in string literals. Reading the text back gives the tree
again only where the names are identifiers and the literals hold no quote and no line break.
-/

namespace Silly

/-- The text of a string literal or of a string value within another: its text in quotes. -/
def quote (s : String) : String := "\"" ++ s ++ "\""

/-- The spelling of a boolean. -/
def boolText (b : Bool) : String := if b then "true" else "false"

/-- What a list is written as, from the texts of its items. -/
def bracket (items : List String) : String := "[" ++ " ".intercalate items ++ "]"

mutual
/-- **The text of an expression**, where `text` gives the texts of names. -/
def Expr.display (text : Name → String) : Expr → String
  | .int n => Integer.text n
  | .bool b => boolText b
  | .str s => quote (text s)
  | .var x => text x
  | .list items => bracket (displayItems text items)
  | .unary op e => "(" ++ op.symbol ++ " " ++ e.display text ++ ")"
  | .binary op l r => "(" ++ l.display text ++ " " ++ op.symbol ++ " " ++ r.display text ++ ")"

/-- The texts of the items of a list. -/
def displayItems (text : Name → String) : List Expr → List String
  | [] => []
  | e :: es => e.display text :: displayItems text es
end

/-- The blanks at the front of a line that stands in `depth` blocks. -/
def indent (depth : Nat) : String := String.ofList (List.replicate (2 * depth) ' ')

/-- A line that stands in `depth` blocks. -/
def line (depth : Nat) (s : String) : String := indent depth ++ s

mutual
/-- **The lines of a statement** that stands in `depth` blocks. -/
def Stmt.lines (text : Name → String) (depth : Nat) : Stmt → List String
  | .assign x e => [line depth (text x ++ " gets " ++ e.display text)]
  | .declare x e => [line depth ("var " ++ text x ++ " gets " ++ e.display text)]
  | .print e => [line depth ("print " ++ e.display text)]
  | .ifElse arms => arms.firstLines text depth ++ [line depth "endif"]
  | .whileDo c body =>
    line depth ("while " ++ c.display text ++ " do")
      :: (blockLines text (depth + 1) body ++ [line depth "endwhile"])
  | .repeatTimes n body =>
    line depth ("repeat " ++ n.display text ++ " times")
      :: (blockLines text (depth + 1) body ++ [line depth "endrepeat"])
  | .sub x body =>
    line depth ("sub " ++ text x)
      :: (blockLines text (depth + 1) body ++ [line depth "endsub"])
  | .call x => [line depth ("call " ++ text x)]
  | .exit => [line depth "exit"]
  | .breakLoop => [line depth "break"]

/-- The lines of a chain of arms that begins an `if`. A chain without a condition begins with a
line on which nothing stands. -/
def Arms.firstLines (text : Name → String) (depth : Nat) : Arms → List String
  | .done => [line depth ""]
  | .otherwise body => line depth "" :: line depth "else" :: blockLines text (depth + 1) body
  | .arm c body rest =>
    line depth ("if " ++ c.display text ++ " then")
      :: (blockLines text (depth + 1) body ++ rest.furtherLines text depth)

/-- The lines of a chain of arms that goes on after an arm of the same `if`. -/
def Arms.furtherLines (text : Name → String) (depth : Nat) : Arms → List String
  | .done => []
  | .otherwise body => line depth "else" :: blockLines text (depth + 1) body
  | .arm c body rest =>
    line depth ("elseif " ++ c.display text ++ " then")
      :: (blockLines text (depth + 1) body ++ rest.furtherLines text depth)

/-- The lines of a block whose statements stand in `depth` blocks. -/
def blockLines (text : Name → String) (depth : Nat) : List Stmt → List String
  | [] => []
  | s :: ss => s.lines text depth ++ blockLines text depth ss
end

/-- The text of a list of lines: a line break between each two. -/
def unlines (ls : List String) : String := "\n".intercalate ls

/-- **The text of one statement.** -/
def Stmt.display (text : Name → String) (s : Stmt) : String := unlines (s.lines text 0)

/-- **The canonical text of a program.** -/
def Program.display (text : Name → String) (p : Program) : String := unlines (blockLines text 0 p)

end Silly
