import Silly.Machine.Run
import Silly.Options
import Silly.Parser.Basic
import Silly.Tree.Display

/-!
# What can be done with a source

Three things: list its tokens (`tokenListing`), write it in canonical form (`canonical`) and run it
(`runSource`). Each starts with a fresh table of names. A source is read as a whole before it runs,
so one with a syntax error anywhere prints nothing.
-/

namespace Silly

/-- **Why a source does not run to its end.** -/
inductive Failure
  | parse (e : ParseError)
  | run (e : RunError)
  | fault (f : Fault)

namespace Failure

/-- The failure as it is reported. -/
def message : Failure → String
  | parse e => "syntax error: " ++ e.message
  | run e => "runtime error: " ++ e.message
  | fault f => "runtime error: " ++ f.message

/-- What stopped a run as a failure of its source. -/
def ofStop : Stop → Failure
  | .error e => run e
  | .fault f => fault f

end Failure

/-- A text filled up with blanks to `width` characters. -/
def padRight (width : Nat) (s : String) : String :=
  s ++ String.ofList (List.replicate (width - s.length) ' ')

/-- The line of a listing that describes one token: its kind, its text and its span. -/
def Token.listing (t : Token) : String :=
  padRight 18 t.kind.describe ++ " " ++ padRight 12 t.text ++ " @ " ++ t.span.text ++ "\n"

/-- **The tokens of a source**, one on a line. -/
def tokenListing (source : String) : String :=
  String.join ((tokenize source .initial).1.map (·.listing))

/-- **The canonical form of a source.** -/
def canonical (source : String) : Except Failure String :=
  match parse source .initial with
  | (.ok p, names) => .ok (Program.display names.text p)
  | (.error e, _) => .error (.parse e)

/-- A run that is about to start: the names of its program, and its first point. -/
structure Loaded where
  names : Interner
  config : Config

/-- **A source ready to run**, and the log of its reading. -/
def load (source : String) (options : Options) (printer : Printer) :
    Except ParseError Loaded × List Event :=
  let (result, parser) := (Parser.ofSource source .initial).program
  match result with
  | .error e => (.error e, parser.reader.log)
  | .ok p =>
    let log := .runningProgram p.length :: parser.reader.log
    (.ok ⟨parser.names, { Machine.initial printer options.maxCalls with log := log }.load p⟩, log)

/-- What a source came to: a status or a failure, with the printer and the log, newest first. -/
structure Report where
  result : Except Failure Status
  printer : Printer
  log : List Event

namespace Report

/-- The report of a source that cannot be read. -/
def unread (e : ParseError) (printer : Printer) (log : List Event) : Report :=
  ⟨.error (.parse e), printer, log⟩

/-- **The report of a finished run.** -/
def ofRun (result : Outcome Status) (m : Machine) : Report :=
  match result with
  | .ok status =>
    let m := m.halt status
    ⟨.ok status, m.printer, .runFinished status :: m.log⟩
  | .error s => ⟨.error (.ofStop s), m.printer, m.log⟩

end Report

/-- **Running a source**, in at most `fuel` steps. There is no report if the steps do not suffice. -/
def runSource (fuel : Nat) (source : String) (options : Options) (printer : Printer) :
    Option Report :=
  match load source options printer with
  | (.error e, log) => some (.unread e printer log)
  | (.ok loaded, _) =>
    match loaded.config.run loaded.names fuel with
    | .finished result m => some (.ofRun result m)
    | .running _ => none

end Silly
