import Silly.Name
import Silly.Token.Lexeme

/-!
# Tokens

A token is a lexeme that has been given a name: the number of its text in a table of names. Two
tokens are the same token when their texts are, and so when their names are, wherever in the
source they stand.
-/

namespace Silly

/-- **A token**: its kind, its text, the name of its text, and its place. -/
structure Token where
  kind : TokenKind
  text : String
  name : Name
  span : Span
  deriving DecidableEq

namespace Token

/-- Whether two tokens are the same token: whether their texts have one name. -/
def same (a b : Token) : Bool := a.name = b.name

end Token

/-- The token of a lexeme, and the table of names with the lexeme's text in it. -/
def Lexeme.token (l : Lexeme) (names : Interner) : Token × Interner :=
  let (name, names) := names.intern l.text
  (⟨l.kind, l.text, name, l.span⟩, names)

/-- The tokens of a row of lexemes, named in order. -/
def tokensOf : List Lexeme → Interner → List Token × Interner
  | [], names => ([], names)
  | l :: ls, names =>
    let (token, names) := l.token names
    let (tokens, names) := tokensOf ls names
    (token :: tokens, names)

/-- **The tokens of a source**, and the table of names with all their texts in it. -/
def tokenize (source : String) (names : Interner) : List Token × Interner :=
  tokensOf (lexemes source) names

end Silly
