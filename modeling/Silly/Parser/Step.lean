import Silly.Log
import Silly.Numeral
import Silly.Parser.Fragment
import Silly.Token.Basic

/-!
# Reading one token

`Fragment.step` says what one more token makes of a partly read statement. It may leave the
statement open, complete it, or be an error. The step looks at nothing but the token and what is
open, so what a source has been read into depends on the tokens up to that point alone, and an
error on those and the token that it is about.

A completed expression fills the innermost hole (`deliver`), and a completed statement goes into
the innermost open block (`finish`). Both may complete nothing further, as every operation, list
and block waits for a mark or a word that ends it.
-/

namespace Silly

/-- **What a token makes of a partly read statement.** -/
inductive Verdict
  /-- More is needed. -/
  | more (next : Fragment)
  /-- The token completes a statement around which nothing is open. -/
  | complete (s : Stmt)
  /-- The token is consumed and is an error. -/
  | reject (e : ParseError)
  /-- The token is an error and stays where it is. -/
  | decline (e : ParseError)

/-- The outcome of reading one token: the verdict, what the log says of it, and the names, to
which a string literal adds its text. -/
structure Turn where
  names : Interner
  verdict : Verdict
  events : List Event

namespace Turn

variable (names : Interner)

/-- More is needed. -/
def more (phase : Phase) (blocks : List OpenBlock) : Turn := ⟨names, .more ⟨phase, blocks⟩, []⟩

/-- The token is not what was expected. -/
def unexpected (t : Token) (e : Expected) : Turn :=
  ⟨names, .reject (.unexpectedToken t.text e t.span), []⟩

/-- The token does not begin a statement. -/
def unknown (t : Token) : Turn := ⟨names, .decline (.unknownStatement t.text t.span), []⟩

/-- The log says `e` of the token. -/
def noting (turn : Turn) (e : Event) : Turn := { turn with events := e :: turn.events }

/-- **A completed statement.** It goes into the innermost open block, if there is one. -/
def finish (o : Opening) (s : Stmt) : List OpenBlock → Turn
  | [] => ⟨names, .complete s, [.parsedStatement o.text o.start]⟩
  | b :: bs => ⟨names, .more ⟨.between, b.push s :: bs⟩, [.parsedStatement o.text o.start]⟩

end Turn

namespace StmtHole

/-- **A filled statement.** The expression either completes it or completes its header. -/
def fill (e : Expr) : StmtHole → Stmt ⊕ Header
  | assign x => .inl (.assign x e)
  | declare x => .inl (.declare x e)
  | print => .inl (.print e)
  | branch before => .inr (.branch before e)
  | whileDo => .inr (.whileDo e)
  | repeatTimes => .inr (.repeatTimes e)

end StmtHole

/-- **A completed expression** fills the innermost hole. -/
def deliver (names : Interner) (o : Opening) (hole : StmtHole) (blocks : List OpenBlock)
    (e : Expr) : List ExprHole → Turn
  | [] =>
    match hole.fill e with
    | .inl s => Turn.finish names o s blocks
    | .inr header => Turn.more names (.within o (.word header)) blocks
  | .group :: around => Turn.more names (.within o (.operator hole around e)) blocks
  | .operand op :: around =>
    Turn.more names (.within o (.closing hole around (.unary op e))) blocks
  | .right left op :: around =>
    Turn.more names (.within o (.closing hole around (.binary op left e))) blocks
  | .item before :: around =>
    Turn.more names (.within o (.expression hole (.item (e :: before) :: around))) blocks

/-- The text between the quotes of a string literal. -/
def Token.contents (t : Token) : String := String.ofList (t.text.toList.drop 1).dropLast

/-- A token where an expression is needed. A unary operator may stand right after a parenthesis,
and a closing bracket may stand in a list. -/
def stepExpression (names : Interner) (o : Opening) (hole : StmtHole) (blocks : List OpenBlock)
    (around : List ExprHole) (t : Token) : Turn :=
  match t.kind, around with
  | .delimiter .openParen, _ =>
    Turn.more names (.within o (.expression hole (.group :: around))) blocks
  | .delimiter .openBracket, _ =>
    Turn.more names (.within o (.expression hole (.item [] :: around))) blocks
  | .identifier, _ => deliver names o hole blocks (.var t.name) around
  | .boolean b, _ => deliver names o hole blocks (.bool b) around
  | .integer, _ =>
    match Numeral.read? t.text with
    | some n => deliver names o hole blocks (.int n) around
    | none => ⟨names, .reject (.integerOutOfRange t.text t.span), []⟩
  | .string, _ =>
    let (text, names) := names.intern t.contents
    deliver names o hole blocks (.str text) around
  | .unary op, .group :: around =>
    (Turn.more names (.within o (.expression hole (.operand op :: around))) blocks).noting
      (.unaryExpression op)
  | .delimiter .closeBracket, .item before :: around =>
    deliver names o hole blocks (.list before.reverse) around
  | _, _ => Turn.unexpected names t .expression

/-- A token where the statement `o` needs something. -/
def stepWithin (names : Interner) (o : Opening) (blocks : List OpenBlock) (t : Token) :
    Need → Turn
  | .name use =>
    if t.kind = .identifier then
      match use with
      | .declare => Turn.more names (.within o (.gets (.declare t.name))) blocks
      | .sub => Turn.more names .between (⟨o, .sub t.name, []⟩ :: blocks)
      | .call => Turn.finish names o (.call t.name) blocks
    else Turn.unexpected names t .identifier
  | .gets hole =>
    if t.kind = .keyword .gets then Turn.more names (.within o (.expression hole [])) blocks
    else Turn.unexpected names t (.keywords [.gets])
  | .expression hole around => stepExpression names o hole blocks around t
  | .operator hole around left =>
    match t.kind with
    | .binary op =>
      (Turn.more names (.within o (.expression hole (.right left op :: around))) blocks).noting
        (.binaryExpression op)
    | _ => Turn.unexpected names t .binaryOperator
  | .closing hole around e =>
    if t.kind = .delimiter .closeParen then deliver names o hole blocks e around
    else Turn.unexpected names t (.delimiter .closeParen)
  | .word header =>
    if t.kind = .keyword header.word then
      Turn.more names .between (⟨o, .after header, []⟩ :: blocks)
    else Turn.unexpected names t (.keywords [header.word])

/-- **A block's end.** `k` is one of the keywords that end the block `b`. It completes the
statement that the block belongs to, or it goes on to that statement's next part. -/
def closeBlock (names : Interner) (b : OpenBlock) (blocks : List OpenBlock) (k : Keyword) : Turn :=
  match b.hole with
  | .after (.branch before cond) =>
    let branches := (cond, b.body) :: before
    match k with
    | .elseif => Turn.more names (.within b.opening (.expression (.branch branches) [])) blocks
    | .else => Turn.more names .between (⟨b.opening, .otherwise branches, []⟩ :: blocks)
    | _ => Turn.finish names b.opening (.ifElse (.ofBranches branches.reverse .done)) blocks
  | .after (.whileDo cond) => Turn.finish names b.opening (.whileDo cond b.body) blocks
  | .after (.repeatTimes count) => Turn.finish names b.opening (.repeatTimes count b.body) blocks
  | .otherwise branches =>
    Turn.finish names b.opening (.ifElse (.ofBranches branches.reverse (.otherwise b.body))) blocks
  | .sub x => Turn.finish names b.opening (.sub x b.body) blocks

/-- The first word of a statement. Subroutines are defined at the top level only. -/
def beginStatement (names : Interner) (blocks : List OpenBlock) (t : Token)
    (k : StatementKeyword) : Turn :=
  let o : Opening := ⟨t.text, t.span.start⟩
  match k with
  | .var => Turn.more names (.within o (.name .declare)) blocks
  | .print => Turn.more names (.within o (.expression .print [])) blocks
  | .if => Turn.more names (.within o (.expression (.branch []) [])) blocks
  | .while => Turn.more names (.within o (.expression .whileDo [])) blocks
  | .repeat => Turn.more names (.within o (.expression .repeatTimes [])) blocks
  | .sub =>
    if blocks.isEmpty then Turn.more names (.within o (.name .sub)) blocks
    else ⟨names, .reject (.nestedSubroutine t.span), []⟩
  | .call => Turn.more names (.within o (.name .call)) blocks
  | .exit => Turn.finish names o .exit blocks
  | .break => Turn.finish names o .breakLoop blocks

/-- A token between statements: the first of a statement, or the end of the innermost block. -/
def stepBetween (names : Interner) (blocks : List OpenBlock) (t : Token) : Turn :=
  match t.kind with
  | .statement k => beginStatement names blocks t k
  | .identifier =>
    Turn.more names (.within ⟨t.text, t.span.start⟩ (.gets (.assign t.name))) blocks
  | .keyword k =>
    match blocks with
    | b :: bs =>
      if b.hole.terminators.contains k then closeBlock names b bs k else Turn.unknown names t
    | [] => Turn.unknown names t
  | _ => Turn.unknown names t

/-- **Reading one token.** -/
def Fragment.step (p : Fragment) (names : Interner) (t : Token) : Turn :=
  match p.phase with
  | .between => stepBetween names p.blocks t
  | .within o need => stepWithin names o p.blocks t need

end Silly
