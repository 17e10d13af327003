import Silly.Token.Basic

/-!
# Streams of tokens

A stream gives the tokens of a source one at a time and lets its reader look at the next one
before taking it. A token's text is named when the token is first looked at or taken. Naming a
text a second time changes nothing, so the stream need not remember whether it has shown the
token at its head already: the state is the lexemes that are left, and the names.
-/

namespace Silly

/-- **A stream of tokens.** -/
structure TokenStream where
  /-- The lexemes not yet taken. -/
  rest : List Lexeme
  /-- The names of the texts that have been looked at. -/
  names : Interner

namespace TokenStream

/-- The stream of a source's tokens. -/
def ofSource (source : String) (names : Interner) : TokenStream := ⟨lexemes source, names⟩

/-- The next token, which stays in the stream. -/
def peek (s : TokenStream) : Option Token × TokenStream :=
  match s.rest with
  | [] => (none, s)
  | l :: ls =>
    let (token, names) := l.token s.names
    (some token, ⟨l :: ls, names⟩)

/-- The next token, which leaves the stream. -/
def next (s : TokenStream) : Option Token × TokenStream :=
  match s.rest with
  | [] => (none, s)
  | l :: ls =>
    let (token, names) := l.token s.names
    (some token, ⟨ls, names⟩)

/-- Whether a token is left. The answer is found by looking at it. -/
def hasNext (s : TokenStream) : Bool × TokenStream :=
  let (token, s) := s.peek
  (token.isSome, s)

/-- All the tokens that are left, which leave the stream. -/
def drain (s : TokenStream) : List Token × TokenStream :=
  let (tokens, names) := tokensOf s.rest s.names
  (tokens, ⟨[], names⟩)

end TokenStream

end Silly
