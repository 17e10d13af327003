/-!
# Delimiters and operators

The marks of the language. Each is one character, and each is a token wherever it stands outside
quotes: a word ends before it. The four delimiters bracket expressions, the two unary operators
stand before their operand, and the twelve binary operators stand between theirs.
-/

namespace Silly

/-- The marks that bracket an expression. -/
inductive Delimiter
  | openParen | closeParen | openBracket | closeBracket
  deriving DecidableEq

namespace Delimiter

def all : List Delimiter := [openParen, closeParen, openBracket, closeBracket]

/-- The mark as a character. -/
def mark : Delimiter → Char
  | openParen => '('
  | closeParen => ')'
  | openBracket => '['
  | closeBracket => ']'

/-- The mark as a text. -/
def text (d : Delimiter) : String := d.mark.toString

/-- The delimiter with the given spelling. -/
def ofText? (s : String) : Option Delimiter := all.find? (·.text = s)

theorem ofText?_text (d : Delimiter) : ofText? d.text = some d := by cases d <;> decide

end Delimiter

/-- The operators that stand before their one operand. -/
inductive UnaryOp
  /-- Negation of a boolean. -/
  | not
  /-- Length of a string or of a list. -/
  | len
  deriving DecidableEq

namespace UnaryOp

def all : List UnaryOp := [not, len]

/-- The operator as a character. -/
def mark : UnaryOp → Char
  | not => '!'
  | len => '#'

/-- The operator as a text. -/
def symbol (op : UnaryOp) : String := op.mark.toString

/-- The operator with the given spelling. -/
def ofSymbol? (s : String) : Option UnaryOp := all.find? (·.symbol = s)

theorem ofSymbol?_symbol (op : UnaryOp) : ofSymbol? op.symbol = some op := by cases op <;> decide

end UnaryOp

/-- The operators that stand between their two operands. -/
inductive BinaryOp
  | and | or | add | mul | div | mod | pow | index | eq | notEq | gt | lt
  deriving DecidableEq

namespace BinaryOp

def all : List BinaryOp := [and, or, add, mul, div, mod, pow, index, eq, notEq, gt, lt]

/-- The operator as a character. -/
def mark : BinaryOp → Char
  | and => '&'
  | or => '|'
  | add => '+'
  | mul => '*'
  | div => '/'
  | mod => '%'
  | pow => '^'
  | index => '@'
  | eq => '='
  | notEq => '\\'
  | gt => '>'
  | lt => '<'

/-- The operator as a text. -/
def symbol (op : BinaryOp) : String := op.mark.toString

/-- The operator with the given spelling. -/
def ofSymbol? (s : String) : Option BinaryOp := all.find? (·.symbol = s)

theorem ofSymbol?_symbol (op : BinaryOp) : ofSymbol? op.symbol = some op := by
  cases op <;> decide

/-- The operators that compare two values of one kind. -/
def isComparison : BinaryOp → Bool
  | eq | notEq | gt | lt => true
  | _ => false

end BinaryOp

/-- The eighteen characters that are tokens by themselves. -/
def marks : List Char :=
  Delimiter.all.map (·.mark) ++ UnaryOp.all.map (·.mark) ++ BinaryOp.all.map (·.mark)

/-- Whether `c` is a token by itself and so ends the word before it. -/
def isMark (c : Char) : Bool := marks.contains c

example : marks.length = 18 := rfl

end Silly
