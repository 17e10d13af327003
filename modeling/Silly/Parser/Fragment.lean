import Silly.Parser.Error
import Silly.Tree.Basic

/-!
# Partly read statements

The grammar brackets every construct by fixed words and marks:

```text
expression  ::= identifier | integer | string | boolean
              | "(" unaryOp expression ")"
              | "(" expression binaryOp expression ")"
              | "[" expression* "]"
statement   ::= identifier "gets" expression
              | "var" identifier "gets" expression
              | "print" expression
              | "if" expression "then" block ("elseif" expression "then" block)*
                  ("else" block)? "endif"
              | "while" expression "do" block "endwhile"
              | "repeat" expression "times" block "endrepeat"
              | "sub" identifier block "endsub"
              | "call" identifier | "exit" | "break"
```

So a program can be read with no look ahead. Between two tokens the reader knows which constructs
are open and how far each has come, and this is all it needs to know. That knowledge is a value of
the type `Fragment`. Each open construct is a *hole*: the construct without the part that is still
to be read. An innermost part fills the hole around it, from the inside out, so the open
constructs form two stacks, one of expressions within the statement being read (`ExprHole`) and
one of blocks around that statement (`OpenBlock`).

In all lists of parts already read, the newest comes first.
-/

namespace Silly

/-- The first token of a statement, by which the log refers to the statement. -/
structure Opening where
  text : String
  start : Nat

/-- **An open expression**, with a hole for the part that is being read. -/
inductive ExprHole
  /-- `( □`: a parenthesis with nothing after it yet. -/
  | group
  /-- `( op □ )` -/
  | operand (op : UnaryOp)
  /-- `( left op □ )` -/
  | right (left : Expr) (op : BinaryOp)
  /-- `[ e … □`: a list, with the items read so far. -/
  | item (before : List Expr)

/-- **An open statement** with a hole for its expression. -/
inductive StmtHole
  | assign (name : Name)
  | declare (name : Name)
  | print
  /-- A condition of an `if`, with the branches read so far. -/
  | branch (before : List (Expr × Block))
  | whileDo
  | repeatTimes

/-- The part of a statement that stands before a block and ends in a keyword. -/
inductive Header
  /-- A condition of an `if`, after the branches read so far. -/
  | branch (before : List (Expr × Block)) (cond : Expr)
  | whileDo (cond : Expr)
  | repeatTimes (count : Expr)

namespace Header

/-- The keyword between a header and its block. -/
def word : Header → Keyword
  | branch .. => .then
  | whileDo _ => .do
  | repeatTimes _ => .times

end Header

/-- **An open statement** with a hole for the block that is being read. -/
inductive BlockHole
  /-- The block after a header. -/
  | after (header : Header)
  /-- The `else` body of an `if`, after all its branches. -/
  | otherwise (branches : List (Expr × Block))
  /-- The body of a subroutine. -/
  | sub (name : Name)

namespace BlockHole

/-- The keywords that end a block. -/
def terminators : BlockHole → List Keyword
  | after (.branch ..) => [.elseif, .else, .endif]
  | after (.whileDo _) => [.endwhile]
  | after (.repeatTimes _) => [.endrepeat]
  | otherwise _ => [.endif]
  | sub _ => [.endsub]

end BlockHole

/-- A block that is being read: the statement that it belongs to, and its own statements so far. -/
structure OpenBlock where
  opening : Opening
  hole : BlockHole
  before : List Stmt

namespace OpenBlock

/-- The block with one more statement. -/
def push (b : OpenBlock) (s : Stmt) : OpenBlock := { b with before := s :: b.before }

/-- The statements of the block in order. -/
def body (b : OpenBlock) : Block := b.before.reverse

end OpenBlock

/-- The statements in which a bare name follows the first word. -/
inductive NameUse
  | declare | sub | call

/-- **What a statement needs next.** -/
inductive Need
  /-- A name. -/
  | name (use : NameUse)
  /-- The word `gets`. -/
  | gets (hole : StmtHole)
  /-- An expression, or the end of a list, for the innermost of the open expressions. -/
  | expression (hole : StmtHole) (around : List ExprHole)
  /-- A binary operator after a left operand. -/
  | operator (hole : StmtHole) (around : List ExprHole) (left : Expr)
  /-- The parenthesis that ends the operation `e`. -/
  | closing (hole : StmtHole) (around : List ExprHole) (e : Expr)
  /-- The keyword between a header and its block. -/
  | word (header : Header)

/-- Where the reader stands. -/
inductive Phase
  /-- Between statements. -/
  | between
  /-- In the statement that begins with `opening`. -/
  | within (opening : Opening) (need : Need)

/-- **A partly read statement**: what it needs next, and the blocks that are open around it, the
innermost first. -/
structure Fragment where
  phase : Phase
  blocks : List OpenBlock

namespace Fragment

/-- Nothing is open. -/
def start : Fragment := ⟨.between, []⟩

/-- Why the source may not end here, if it may not. -/
def atEnd : Fragment → Option ParseError
  | ⟨.between, []⟩ => none
  | ⟨.between, b :: _⟩ => some (.unexpectedEnd (.keywords b.hole.terminators))
  | ⟨.within _ need, _⟩ => some <| .unexpectedEnd <|
    match need with
    | .name _ => .identifier
    | .gets _ => .keywords [.gets]
    | .expression _ (.item _ :: _) => .delimiter .closeBracket
    | .expression .. => .expression
    | .operator .. => .binaryOperator
    | .closing .. => .delimiter .closeParen
    | .word header => .keywords [header.word]

end Fragment

end Silly
