import Silly.Span
import Silly.Status
import Silly.Token.Kind

/-!
# The log

Reading and running a program leave a log of what was done. An entry is an `Event`, which holds
what happened in the program's own terms. How it is written down, with a level, a message and
named fields, is said in one place, by `Event.record`.

Logs are held with the newest event first. The pair of `enterCall` and `exitCall` brackets the
events of one call, and `beginScope` and `endScope` bracket those of one scope.
-/

namespace Silly

/-- How much detail an entry of the log gives. -/
inductive Level
  | trace | debug
  deriving DecidableEq

/-- The name of a level. -/
def Level.text : Level → String
  | trace => "TRACE"
  | debug => "DEBUG"

/-- **What is worth noting** while a program is read and run. -/
inductive Event
  /-- A token was consumed; `pos` were consumed before it. -/
  | advance (pos : Nat) (kind : TokenKind) (span : Span)
  /-- The operator of a unary expression was read. -/
  | unaryExpression (op : UnaryOp)
  /-- The operator of a binary expression was read. -/
  | binaryExpression (op : BinaryOp)
  /-- A statement was read to its end; `text` is its first token, which stands at `start`. -/
  | parsedStatement (text : String) (start : Nat)
  /-- All statements were read; there were `statements` of them. -/
  | parsedProgram (statements : Nat)
  /-- A program of so many statements is about to run. -/
  | runningProgram (statements : Nat)
  /-- A scope was opened, and there are now `depth` of them. -/
  | beginScope (depth : Nat)
  /-- A scope was closed, and there are now `depth` of them. -/
  | endScope (depth : Nat)
  /-- The count of a `repeat` was found. -/
  | repeatTimes (times : Int64)
  | defineSubroutine (name : String)
  /-- A call is about to begin. -/
  | callSubroutine (name : String)
  | enterCall
  | exitCall
  /-- The program ended before its last statement. -/
  | programHalted (status : Status)
  /-- The run ended without an error. -/
  | runFinished (status : Status)

/-- An entry of the log as it is written down. -/
inductive Record
  /-- A single entry. -/
  | entry (level : Level) (message : String) (fields : List (String × String))
  /-- The start of a named stretch of entries. -/
  | span (level : Level) (name : String) (fields : List (String × String))
  | enter
  | exit

/-- **How an event is written down.** -/
def Event.record : Event → Record
  | advance pos kind span =>
    .entry .trace "advance"
      [("pos", toString pos), ("kind", kind.describe), ("span_start", toString span.start),
       ("span_end", toString span.stop)]
  | unaryExpression op => .entry .trace "unary expression" [("op", op.symbol)]
  | binaryExpression op => .entry .trace "binary expression" [("op", op.symbol)]
  | parsedStatement text start =>
    .entry .debug "parsed statement" [("statement", text), ("start", toString start)]
  | parsedProgram n => .entry .debug "parsed program" [("statements", toString n)]
  | runningProgram n => .entry .debug "running program" [("statements", toString n)]
  | beginScope depth => .entry .trace "begin scope" [("depth", toString depth)]
  | endScope depth => .entry .trace "end scope" [("depth", toString depth)]
  | repeatTimes times => .entry .trace "repeat" [("times", toString times.toInt)]
  | defineSubroutine name => .entry .debug "define subroutine" [("name", name)]
  | callSubroutine name => .span .debug "call_subroutine" [("name", name)]
  | enterCall => .enter
  | exitCall => .exit
  | programHalted status => .entry .debug "program halted" [("status", status.text)]
  | runFinished status => .entry .debug "run finished" [("status", status.text)]

end Silly
