import Silly.Source

/-!
# The command line

A command line asks for one thing (`Command`), and what it asks for is told from its arguments
alone. Carrying a command out needs the text of at most one file. The answer (`Response`) is an exit
code and what goes to the two outputs. The code is `0` if all went well, and `1` with a message on
the second output if not. A run that ends by `break` or `exit` went well.
-/

namespace Silly

/-- Why a command line asks for nothing. -/
inductive Misuse
  | unknownOption (arg : String)
  /-- `run` has no path among its arguments. -/
  | missingRunPath
  | missingParsePath
  | missingLexPath
  | unknownCommand (arg : String)
  deriving DecidableEq

/-- **What a command line asks for.** -/
inductive Command
  | help
  | run (path : String) (options : Options)
  | parse (path : String)
  | lex (path : String)
  | misuse (m : Misuse)
  deriving DecidableEq

/-- Why the text of a file cannot be had. -/
inductive ReadFailure
  | notFound
  | isDirectory
  /-- The bytes of the file are not the UTF-8 form of any text. -/
  | invalidText
  | other (reason : String)

/-- The failure in the words of the system. -/
def ReadFailure.message : ReadFailure → String
  | notFound => "No such file or directory (os error 2)"
  | isDirectory => "Is a directory (os error 21)"
  | invalidText => "stream did not contain valid UTF-8"
  | other reason => reason

/-- **What a command line is answered.** -/
structure Response where
  code : Nat
  stdout : String
  stderr : String
  deriving DecidableEq

/-- How the program is used. -/
def usage : String :=
  unlines
    ["SILLY interpreter",
     "",
     "Usage: silly <command> [options]",
     "",
     "Commands:",
     "  run <file>           Run a SILLY program",
     "  parse <file>         Parse and print the program in canonical form",
     "  lex <file>           Tokenize and display tokens",
     "  <file.sil>           Shorthand for `run <file.sil>`",
     "  help                 Show this help message",
     "",
     "Run options:",
     "  --max-depth=<n>      Limit nested subroutine calls (default: 1000)",
     "",
     "Set RUST_LOG (e.g. RUST_LOG=silly_eval=debug) to enable logging.",
     ""]

namespace Command

/-- The arguments of `run`, after the path and the options read so far. Options may stand on both
sides of the path, the last one counts, and a second path is passed over. -/
def ofRunArgs (path : Option String) (options : Options) : List String → Command
  | [] =>
    match path with
    | some path => run path options
    | none => misuse .missingRunPath
  | arg :: args =>
    if arg.toList.head? = some '-' then
      match options.withFlag? arg with
      | some options => ofRunArgs path options args
      | none => misuse (.unknownOption arg)
    else ofRunArgs (path <|> some arg) options args

/-- Whether a text ends as the names of program files do. -/
def isProgramPath (s : String) : Bool := ".sil".toList.isSuffixOf s.toList

/-- **What the arguments ask for.** -/
def ofArgs : List String → Command
  | [] => help
  | "run" :: args => ofRunArgs none .default args
  | ["parse"] => misuse .missingParsePath
  | "parse" :: path :: _ => parse path
  | ["lex"] => misuse .missingLexPath
  | "lex" :: path :: _ => lex path
  | arg :: _ =>
    if ["help", "--help", "-h"].contains arg then help
    else if isProgramPath arg then run arg .default
    else misuse (.unknownCommand arg)

end Command

namespace Response

/-- The answer where all went well. -/
def success (stdout : String) : Response := ⟨0, stdout, ""⟩

/-- The answer where something failed, after `stdout` was written. -/
def failure (stdout message : String) : Response := ⟨1, stdout, "error: " ++ message ++ "\n"⟩

/-- The answer to a file that cannot be read. -/
def unreadable (path : String) (e : ReadFailure) : Response :=
  failure "" ("cannot read `" ++ path ++ "`: " ++ e.message)

/-- How `run` is used. -/
def runUsage : String := "Usage: silly run <file> [--max-depth=<n>]\n"

/-- The answer to a command line that asks for nothing. -/
def ofMisuse : Misuse → Response
  | .unknownOption arg => ⟨1, "", "error: unknown option `" ++ arg ++ "`\n" ++ runUsage⟩
  | .missingRunPath => ⟨1, "", "error: missing file path\n" ++ runUsage⟩
  | .missingParsePath => ⟨1, "", "Usage: silly parse <file>\n"⟩
  | .missingLexPath => ⟨1, "", "Usage: silly lex <file>\n"⟩
  | .unknownCommand arg => ⟨1, usage, "error: unknown command `" ++ arg ++ "`\n\n"⟩

/-- The answer to a source that was run. -/
def ofReport (r : Report) : Response :=
  match r.result with
  | .ok _ => success r.printer.sent
  | .error e => failure r.printer.sent e.message

/-- The answer to a source that is wanted in canonical form. -/
def ofCanonical : Except Failure String → Response
  | .ok text => success (text ++ "\n")
  | .error e => failure "" e.message

/-- The answer that depends on a file: what `f` makes of its text, if it can be read. -/
def withFile (read : String → Except ReadFailure String) (path : String)
    (f : String → Option Response) : Option Response :=
  match read path with
  | .ok source => f source
  | .error e => some (unreadable path e)

end Response

/-- **Carrying out a command**, where `read` gives the text of a file or says why there is none. A
run that needs more than `fuel` steps has no answer. -/
def Command.respond (fuel : Nat) (read : String → Except ReadFailure String) :
    Command → Option Response
  | help => some (.success usage)
  | run path options =>
    Response.withFile read path fun source =>
      (runSource fuel source options (.stdout "")).map .ofReport
  | parse path => Response.withFile read path fun source => some (.ofCanonical (canonical source))
  | lex path => Response.withFile read path fun source => some (.success (tokenListing source))
  | misuse m => some (.ofMisuse m)

end Silly
