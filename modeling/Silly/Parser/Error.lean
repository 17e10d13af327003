import Silly.Span
import Silly.Token.Kind

/-!
# Syntax errors

Reading stops at the first token with which no program could go on, or at the end of the source if
the program is not complete there. An error names the token and says what was expected in its
place. What can be expected is a closed set, `Expected`, and the wording is apart from it.
-/

namespace Silly

/-- **What may stand at some point of a program.** -/
inductive Expected
  | statement
  | expression
  | binaryOperator
  | identifier
  | delimiter (d : Delimiter)
  /-- One of the given keywords. -/
  | keywords (ks : List Keyword)
  deriving DecidableEq

namespace Expected

/-- A word or mark as messages show it. -/
def backquote (s : String) : String := "`" ++ s ++ "`"

/-- A choice in words: `a`, `a or b`, or `a, b, or c`. -/
def choice : List String → String
  | [] => ""
  | [a] => a
  | [a, b] => a ++ " or " ++ b
  | as => ", ".intercalate as.dropLast ++ ", or " ++ as.getLastD ""

/-- The expectation as messages show it. -/
def text : Expected → String
  | statement => "statement"
  | expression => "expression"
  | binaryOperator => "binary operator"
  | identifier => "identifier"
  | delimiter d => backquote d.text
  | keywords ks => choice (ks.map fun k => backquote k.text)

end Expected

/-- **Why a source is not a program.** -/
inductive ParseError
  /-- A token stands where something else has to. -/
  | unexpectedToken (found : String) (expected : Expected) (span : Span)
  /-- The source ends where something has to follow. -/
  | unexpectedEnd (expected : Expected)
  /-- A token stands where a statement has to begin, and begins none. -/
  | unknownStatement (found : String) (span : Span)
  | integerOutOfRange (text : String) (span : Span)
  /-- A subroutine is defined inside a block. -/
  | nestedSubroutine (span : Span)
  deriving DecidableEq

namespace ParseError

/-- The error in two or three words. -/
def category : ParseError → String
  | unexpectedToken .. => "unexpected token"
  | unexpectedEnd .. => "unexpected end of input"
  | unknownStatement .. => "unknown statement"
  | integerOutOfRange .. => "integer out of range"
  | nestedSubroutine .. => "nested subroutine"

/-- The error in full. -/
def message : ParseError → String
  | unexpectedToken found expected span =>
    "expected " ++ expected.text ++ ", found " ++ Expected.backquote found ++ " at " ++ span.text
  | unexpectedEnd expected => "expected " ++ expected.text ++ ", found end of input"
  | unknownStatement found span =>
    Expected.backquote found ++ " at " ++ span.text ++ " does not begin a statement"
  | integerOutOfRange text span =>
    "integer literal " ++ Expected.backquote text ++ " at " ++ span.text ++
      " does not fit in 64 bits"
  | nestedSubroutine span =>
    "`sub` at " ++ span.text ++
      " is inside a block; subroutines are defined at the top level"

end ParseError

end Silly
