import Silly.Parser.Basic

/-!
# The parser by recursive descent

The parser keeps what is open as a value and drops it with an error. Here is the same parser with
one function for each category of the grammar, which call each other. What is open is then in the
calls that have not returned, and all that is kept are four things (`Descent`): the lexemes that
have not been scanned, a token that has been scanned and not been consumed, what the reader keeps,
and a count of the open blocks, by which `sub` is told from its place.

The functions may look at the next token before they consume it, and leave it as the lookahead. They
may also fail in the middle of anything. So it takes an argument to see that the lookahead and the
count are right between two calls, and that argument is why the functions are here.

A list, a block and the branches of an `if` are loops, and each loop is a function of the parts that
have been read, the newest first. The functions call each other without an order that makes it plain
that they return, so their results are optional. That they always return is part of what is shown of
them (`Descend.Follows`).
-/

namespace Silly

/-- **A parser by recursive descent**, at some point of its reading. -/
structure Descent where
  /-- The lexemes that have not been scanned. -/
  rest : List Lexeme
  /-- The token that has been scanned and not been consumed, if there is one. -/
  lookahead : Option Token
  /-- The names, how many tokens were consumed, and the log. -/
  reader : Reader
  /-- How many blocks are open. -/
  depth : Nat

namespace Descent

/-- A parser at the start of a row of lexemes. -/
def ofLexemes (ls : List Lexeme) (names : Interner) : Descent := ⟨ls, none, .ofNames names, 0⟩

/-- A parser at the start of a source. -/
def ofSource (source : String) (names : Interner) : Descent := ofLexemes (lexemes source) names

/-- The next token is scanned, which names its text. -/
def scan (d : Descent) : Option Token × Descent :=
  match d.rest with
  | [] => (none, d)
  | l :: ls =>
    let (t, names) := l.token d.reader.names
    (some t, { d with rest := ls, reader := { d.reader with names } })

/-- The next token, which becomes the lookahead. -/
def peek (d : Descent) : Option Token × Descent :=
  match d.lookahead with
  | some t => (some t, d)
  | none =>
    let (t, d) := d.scan
    (t, { d with lookahead := t })

/-- The next token, which is the lookahead or is scanned. -/
def nextToken (d : Descent) : Option Token × Descent :=
  match d.lookahead with
  | some t => (some t, { d with lookahead := none })
  | none => d.scan

/-- **The next token is consumed**, if there is one. -/
def advance (d : Descent) : Option Token × Descent :=
  match d.nextToken with
  | (none, d) => (none, d)
  | (some t, d) =>
    let event : Event := .advance d.reader.taken t.kind t.span
    (some t, { d with reader := ⟨d.reader.names, d.reader.taken + 1, event :: d.reader.log⟩ })

/-- Whether a token is left. -/
def hasNext (d : Descent) : Bool × Descent :=
  let (t, d) := d.peek
  (t.isSome, d)

/-- A text is named. -/
def intern (s : String) (d : Descent) : Name × Descent :=
  let (x, names) := d.reader.names.intern s
  (x, { d with reader := { d.reader with names } })

end Descent

/-- What a function of the parser does: it comes to a result or to an error, or does not return. -/
abbrev Descend := ExceptT ParseError (StateT Descent Option)

namespace Descend

/-! ### Tokens -/

def peek : Descend (Option Token) := modifyGet Descent.peek

def advance : Descend (Option Token) := modifyGet Descent.advance

def note (e : Event) : Descend Unit := modify fun d => { d with reader := d.reader.note e }

/-- The token is not what was expected. -/
def unexpected {α : Type} (t : Token) (x : Expected) : Descend α :=
  throw (.unexpectedToken t.text x t.span)

/-- The next token is consumed, and the source may not end before it. -/
def nextOrEnd (x : Expected) : Descend Token := do
  match ← advance with
  | some t => return t
  | none => throw (.unexpectedEnd x)

/-- The next token, which has to be of the kind `kind`. -/
def expect (kind : TokenKind) (x : Expected) : Descend Token := do
  let t ← nextOrEnd x
  if t.kind = kind then return t else unexpected t x

def keyword (k : Keyword) : Descend Token := expect (.keyword k) (.keywords [k])

def delimiter (b : Delimiter) : Descend Token := expect (.delimiter b) (.delimiter b)

def identifier : Descend Name := do
  let t ← expect .identifier .identifier
  return t.name

/-! ### Expressions

The functions call each other with `apply`. A call that is written out as a term is kept in the
definition with its place in the file, and a definition should not depend on where it stands. -/

def integer (t : Token) : Descend Expr :=
  match Numeral.read? t.text with
  | some n => return .int n
  | none => throw (.integerOutOfRange t.text t.span)

def string (t : Token) : Descend Expr := do
  let x ← modifyGet (Descent.intern t.contents)
  return .str x

mutual
/-- **An expression.** -/
def expression : Descend Expr := do
  let t ← nextOrEnd .expression
  match t.kind with
  | .delimiter .openParen => by apply parenthesized
  | .delimiter .openBracket => by apply items; exact []
  | .identifier => return .var t.name
  | .boolean b => return .bool b
  | .integer => integer t
  | .string => string t
  | _ => unexpected t .expression
partial_fixpoint

/-- What follows an open parenthesis, up to the one that closes it. -/
def parenthesized : Descend Expr := do
  let e : Expr ← by apply operation
  let _ ← delimiter .closeParen
  return e
partial_fixpoint

/-- An operation without its parentheses. The first token tells which of the two forms it has. -/
def operation : Descend Expr := do
  match ← peek with
  | none => throw (.unexpectedEnd .expression)
  | some t =>
    match t.kind with
    | .unary op =>
      let _ ← advance
      note (.unaryExpression op)
      let e : Expr ← by apply expression
      return .unary op e
    | _ =>
      let left : Expr ← by apply expression
      let t ← nextOrEnd .binaryOperator
      match t.kind with
      | .binary op =>
        note (.binaryExpression op)
        let right : Expr ← by apply expression
        return .binary op left right
      | _ => unexpected t .binaryOperator
partial_fixpoint

/-- The items of a list after those `before`, up to the bracket that closes it. -/
def items (before : List Expr) : Descend Expr := do
  match ← peek with
  | none => throw (.unexpectedEnd (.delimiter .closeBracket))
  | some t =>
    if t.kind = .delimiter .closeBracket then
      let _ ← advance
      return .list before.reverse
    else
      let e : Expr ← by apply expression
      by apply items; exact e :: before
partial_fixpoint
end

/-! ### Statements -/

/-- The word `gets` and the expression after it. -/
def value : Descend Expr := do
  let _ ← keyword .gets
  expression

def assignment : Descend Stmt := do
  let x ← identifier
  let e ← value
  return .assign x e

def declaration : Descend Stmt := do
  let _ ← advance
  let x ← identifier
  let e ← value
  return .declare x e

def print : Descend Stmt := do
  let _ ← advance
  let e ← expression
  return .print e

def call : Descend Stmt := do
  let _ ← advance
  let x ← identifier
  return .call x

/-- A statement that is one word. -/
def word (s : Stmt) : Descend Stmt := do
  let _ ← advance
  return s

/-- The first word of a subroutine, which no block may be open around. -/
def subWord : Descend Unit := do
  match ← advance with
  | some t => if 0 < (← get).depth then throw (.nestedSubroutine t.span)
  | none => return ()

/-- The keyword that a token is, if it is one of `ks`. -/
def terminator? (ks : List Keyword) (t : Token) : Option Keyword :=
  match t.kind with
  | .keyword k => if ks.contains k then some k else none
  | _ => none

mutual
/-- **A statement.** The next token tells which one. -/
def statement : Descend Stmt := do
  match ← peek with
  | none => throw (.unexpectedEnd .statement)
  | some t =>
    let s : Stmt ←
      match t.kind with
      | .statement k => by apply statementOf; exact k
      | .identifier => assignment
      | _ => throw (.unknownStatement t.text t.span)
    note (.parsedStatement t.text t.span.start)
    return s
partial_fixpoint

/-- The statement that begins with the word `k`, which is the next token. -/
def statementOf (k : StatementKeyword) : Descend Stmt :=
  match k with
  | .var => declaration
  | .print => print
  | .if => do
    let _ ← advance
    by apply branches; exact []
  | .while => do
    let _ ← advance
    let cond ← expression
    let _ ← keyword .do
    let (body, _) ← (by apply block; exact [.endwhile] : Descend (Block × Keyword))
    return .whileDo cond body
  | .repeat => do
    let _ ← advance
    let count ← expression
    let _ ← keyword .times
    let (body, _) ← (by apply block; exact [.endrepeat] : Descend (Block × Keyword))
    return .repeatTimes count body
  | .sub => do
    subWord
    let x ← identifier
    let (body, _) ← (by apply block; exact [.endsub] : Descend (Block × Keyword))
    return .sub x body
  | .call => call
  | .exit => word .exit
  | .break => word .breakLoop
partial_fixpoint

/-- The branches of an `if` after those `before`, up to its end. -/
def branches (before : List (Expr × Block)) : Descend Stmt := do
  let cond ← expression
  let _ ← keyword .then
  let (body, k) ← (by apply block; exact [.elseif, .else, .endif] : Descend (Block × Keyword))
  let read := (cond, body) :: before
  match k with
  | .elseif => by apply branches; exact read
  | .else =>
    let (last, _) ← (by apply block; exact [.endif] : Descend (Block × Keyword))
    return .ifElse (.ofBranches read.reverse (.otherwise last))
  | _ => return .ifElse (.ofBranches read.reverse .done)
partial_fixpoint

/-- **A block** with the keyword that ends it, which is one of `ks`. The block is open until it has
been read or an error has come up in it. -/
def block (ks : List Keyword) : Descend (Block × Keyword) := fun d => do
  let (result, d) ←
    (by apply blockFrom; exact ks; exact [] : Descend (Block × Keyword))
      { d with depth := d.depth + 1 }
  return (result, { d with depth := d.depth - 1 })
partial_fixpoint

/-- The statements of a block after those `before`, up to its end. -/
def blockFrom (ks : List Keyword) (before : List Stmt) : Descend (Block × Keyword) := do
  match ← peek with
  | none => throw (.unexpectedEnd (.keywords ks))
  | some t =>
    match terminator? ks t with
    | some k =>
      let _ ← advance
      return (before.reverse, k)
    | none =>
      let s : Stmt ← by apply statement
      by apply blockFrom; exact ks; exact s :: before
partial_fixpoint
end

/-! ### Programs -/

/-- **The next statement**, if there is one. -/
def next : Descend (Option Stmt) := do
  if ← modifyGet Descent.hasNext then
    let s ← statement
    return some s
  else
    return none

/-- The statements after those `before`, up to the end of the source. -/
def programFrom (before : List Stmt) : Descend Program := do
  match ← next with
  | some s => by apply programFrom; exact s :: before
  | none =>
    note (.parsedProgram before.length)
    return before.reverse
partial_fixpoint

/-- **All the statements that are left.** -/
def program : Descend Program := programFrom []

end Descend

end Silly
