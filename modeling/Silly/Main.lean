import Silly.CommandLine

/-!
# The program

The outermost layer, and the only one that reads files and writes to the outputs. What is written
is decided by `Command.respond` and the functions that it is made of. A run is the one command that
is not carried out by it as a whole: its lines are to appear while it goes on, so its steps are
taken a stretch at a time.
-/

namespace Silly

/-- Why a file could not be read. -/
def ReadFailure.ofError : IO.Error → ReadFailure
  | .noFileOrDirectory .. => .notFound
  | .inappropriateType .. => .isDirectory
  | .permissionDenied .. => .other "Permission denied (os error 13)"
  | e => .other (toString e)

/-- The text of a file, or why there is none. -/
def readSource (path : String) : IO (Except ReadFailure String) := do
  match ← (IO.FS.readBinFile path).toBaseIO with
  | .error e => return .error (.ofError e)
  | .ok bytes =>
    match String.fromUTF8? bytes with
    | some text => return .ok text
    | none => return .error .invalidText

/-- How many steps are taken before what was printed is written out. -/
def stretch : Nat := 4096

/-- **Running to the end**, however long it takes. What was printed is written out after each
stretch, and the log, which nobody reads here, is dropped. -/
partial def runToEnd (names : Interner) (c : Config) : IO Report := do
  let out ← IO.getStdout
  match c.run names stretch with
  | .finished result m =>
    out.putStr m.printer.sent
    return .ofRun result { m with printer := .stdout "", log := [] }
  | .running c =>
    out.putStr c.machine.printer.sent
    runToEnd names { c with machine := { c.machine with printer := .stdout "", log := [] } }

/-- The report of a source that is run with its output written out as it goes. -/
def runAloud (source : String) (options : Options) : IO Report := do
  match load source options (.stdout "") with
  | (.error e, log) => return .unread e (.stdout "") log
  | (.ok loaded, _) => runToEnd loaded.names loaded.config

/-- Writing out an answer. -/
def Response.write (r : Response) : IO UInt32 := do
  (← IO.getStdout).putStr r.stdout
  (← IO.getStderr).putStr r.stderr
  return r.code.toUInt32

/-- **Carrying out a command.** -/
def Command.perform (command : Command) : IO UInt32 := do
  match command with
  | .run path options =>
    match ← readSource path with
    | .error e => (Response.unreadable path e).write
    | .ok source => (Response.ofReport (← runAloud source options)).write
  | .parse path | .lex path =>
    let file ← readSource path
    match command.respond 0 (fun _ => file) with
    | some r => r.write
    | none => return 1
  | .help | .misuse _ =>
    match command.respond 0 (fun _ => .ok "") with
    | some r => r.write
    | none => return 1

end Silly

/-- The program. -/
def main (args : List String) : IO UInt32 := (Silly.Command.ofArgs args).perform
