import Silly.Parser.Step
import Silly.Token.Stream

/-!
# Reading programs

A parser reads a source one statement at a time (`Parser.statement`) or all at once
(`Parser.program`). Both read token after token with `Fragment.step`, starting with nothing open.
What is open is not part of the parser: it is dropped with an error, and the next call starts
afresh at the token after the last one consumed. Between calls a parser is no more than the
lexemes that are left and a record of what was consumed.

A token is named when it is looked at. It is looked at just before it is consumed, and one that is
an error but not consumed is looked at as well, so nothing after the token of an error is named.
-/

namespace Silly

/-- What a parser keeps of the tokens it has read: the names, how many tokens it has consumed, and
the log, newest first. -/
structure Reader where
  names : Interner
  taken : Nat
  log : List Event

namespace Reader

/-- A reader that has read nothing. -/
def ofNames (names : Interner) : Reader := ⟨names, 0, []⟩

/-- The log with one more event. -/
def note (r : Reader) (e : Event) : Reader := { r with log := e :: r.log }

/-- **One lexeme read.** The token's own entry in the log stands before the entries of what it
completes. A token that is not consumed leaves nothing but its name. -/
def feed (r : Reader) (p : Fragment) (l : Lexeme) : Verdict × Reader :=
  let (t, names) := l.token r.names
  let turn := p.step names t
  match turn.verdict with
  | .decline e => (.decline e, { r with names := turn.names })
  | v =>
    (v, ⟨turn.names, r.taken + 1, turn.events.reverse ++ .advance r.taken t.kind t.span :: r.log⟩)

end Reader

/-- **A parser**: the lexemes that are left, and what is kept of those that were read. -/
structure Parser where
  rest : List Lexeme
  reader : Reader

namespace Parser

/-- A parser at the start of a source. -/
def ofSource (source : String) (names : Interner) : Parser :=
  ⟨lexemes source, .ofNames names⟩

/-- The names of the parser's tokens and literals. -/
def names (p : Parser) : Interner := p.reader.names

/-- Whether a token is left. The answer is found by looking at it. -/
def hasNext (p : Parser) : Bool × Parser :=
  let (more, stream) := TokenStream.hasNext ⟨p.rest, p.names⟩
  (more, ⟨stream.rest, { p.reader with names := stream.names }⟩)

/-- Reading on in the partly read statement `p` until a statement is complete. There is none if
the source ends with nothing open. -/
def statementFrom (p : Fragment) (r : Reader) : List Lexeme → Except ParseError (Option Stmt) × Parser
  | [] =>
    match p.atEnd with
    | none => (.ok none, ⟨[], r⟩)
    | some e => (.error e, ⟨[], r⟩)
  | l :: ls =>
    match r.feed p l with
    | (.more p, r) => statementFrom p r ls
    | (.complete s, r) => (.ok (some s), ⟨ls, r⟩)
    | (.reject e, r) => (.error e, ⟨ls, r⟩)
    | (.decline e, r) => (.error e, ⟨l :: ls, r⟩)

/-- **The next statement**, if there is one. -/
def statement (p : Parser) : Except ParseError (Option Stmt) × Parser :=
  statementFrom .start p.reader p.rest

/-- Reading on to the end of the source, after the statements `before`, newest first. -/
def programFrom (p : Fragment) (before : List Stmt) (r : Reader) :
    List Lexeme → Except ParseError Program × Parser
  | [] =>
    match p.atEnd with
    | none => (.ok before.reverse, ⟨[], r.note (.parsedProgram before.length)⟩)
    | some e => (.error e, ⟨[], r⟩)
  | l :: ls =>
    match r.feed p l with
    | (.more p, r) => programFrom p before r ls
    | (.complete s, r) => programFrom .start (s :: before) r ls
    | (.reject e, r) => (.error e, ⟨ls, r⟩)
    | (.decline e, r) => (.error e, ⟨l :: ls, r⟩)

/-- **All the statements that are left.** -/
def program (p : Parser) : Except ParseError Program × Parser :=
  programFrom .start [] p.reader p.rest

end Parser

/-- **A source read as a program**, and the names of its tokens and literals. -/
def parse (source : String) (names : Interner) : Except ParseError Program × Interner :=
  let (result, parser) := (Parser.ofSource source names).program
  (result, parser.names)

end Silly
