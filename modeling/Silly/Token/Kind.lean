import Silly.Text.Numeric
import Silly.Token.Keyword
import Silly.Token.Operator

/-!
# Kinds of tokens

What a token is follows from its text alone. The fixed spellings come first: a delimiter, a word
of the language, an operator, `true` or `false`. Any other text is judged by its first character,
which says what the text sets out to be, and the rest then either keeps to that or makes the whole
text unknown:

* a quote opens a string, which a second quote has to end;
* an ASCII digit, or a minus sign with a digit after it, opens an integer, and digits follow;
* a letter opens an identifier, and letters and numeric characters follow.
-/

namespace Silly

/-- **What a token is.** -/
inductive TokenKind
  | delimiter (d : Delimiter)
  | unary (op : UnaryOp)
  | binary (op : BinaryOp)
  | statement (k : StatementKeyword)
  | keyword (k : Keyword)
  | identifier
  | integer
  | boolean (b : Bool)
  | string
  | unknown
  deriving DecidableEq

namespace TokenKind

/-- The two boolean literals. -/
def boolean? (s : String) : Option Bool :=
  if s = "true" then some true else if s = "false" then some false else none

/-- The kind of a text with a fixed spelling. -/
def fixed? (s : String) : Option TokenKind :=
  (Delimiter.ofText? s).map delimiter
    <|> (StatementKeyword.ofText? s).map statement
    <|> (Keyword.ofText? s).map keyword
    <|> (UnaryOp.ofSymbol? s).map unary
    <|> (BinaryOp.ofSymbol? s).map binary
    <|> (boolean? s).map boolean

/-- Whether a text that begins with a quote and goes on with `rest` is a closed string. -/
def closesString (rest : List Char) : Bool := rest.getLast? = some '"'

/-- Whether a text that begins with `c` and goes on with `rest` sets out to be an integer. -/
def opensInteger (c : Char) (rest : List Char) : Bool :=
  c.isDigit || (c = '-' && rest.head?.any (·.isDigit))

/-- The kind of a text without a fixed spelling, read off its characters. -/
def ofChars : List Char → TokenKind
  | [] => unknown
  | c :: rest =>
    if c = '"' then
      if closesString rest then string else unknown
    else if opensInteger c rest then
      if rest.all (·.isDigit) then integer else unknown
    else if isLetter c then
      if rest.all isNameChar then identifier else unknown
    else unknown

/-- **The kind of a text.** -/
def ofText (s : String) : TokenKind := (fixed? s).getD (ofChars s.toList)

/-- What a message calls a token of this kind. -/
def describe : TokenKind → String
  | delimiter _ => "delimiter"
  | unary _ => "unary operator"
  | binary _ => "binary operator"
  | statement _ => "statement keyword"
  | keyword _ => "keyword"
  | identifier => "identifier"
  | integer => "integer literal"
  | boolean _ => "boolean literal"
  | string => "string literal"
  | unknown => "unknown token"

end TokenKind

end Silly
