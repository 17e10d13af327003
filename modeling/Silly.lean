import Silly.CommandLine
import Silly.Environment
import Silly.Heap
import Silly.Integer
import Silly.Log
import Silly.Machine.Basic
import Silly.Machine.Eval
import Silly.Machine.Run
import Silly.Machine.Step
import Silly.Main
import Silly.Name
import Silly.Numeral
import Silly.Options
import Silly.Parser.Basic
import Silly.Parser.Error
import Silly.Parser.Fragment
import Silly.Parser.Step
import Silly.Printer
import Silly.Proofs.CommandLine
import Silly.Proofs.Descent.Basic
import Silly.Proofs.Descent.Calls
import Silly.Proofs.Descent.Expression
import Silly.Proofs.Descent.Follows
import Silly.Proofs.Descent.Lookahead
import Silly.Proofs.Descent.Progress
import Silly.Proofs.Descent.Scanned
import Silly.Proofs.Descent.Statement
import Silly.Proofs.Display.Canonical
import Silly.Proofs.Display.Indent
import Silly.Proofs.Display.Reread
import Silly.Proofs.Display.RoundTrip
import Silly.Proofs.Display.Spelling
import Silly.Proofs.Display.Value
import Silly.Proofs.Display.WellFormed
import Silly.Proofs.Environment.Alike
import Silly.Proofs.Environment.Filled
import Silly.Proofs.Environment.Frames
import Silly.Proofs.Environment.History
import Silly.Proofs.Environment.Map
import Silly.Proofs.Environment.Nest
import Silly.Proofs.Environment.Rebind
import Silly.Proofs.Environment.Rename
import Silly.Proofs.Environment.Reuse
import Silly.Proofs.Environment.Scope
import Silly.Proofs.Grammar.Completeness
import Silly.Proofs.Grammar.Concat
import Silly.Proofs.Grammar.Derivation
import Silly.Proofs.Grammar.Events
import Silly.Proofs.Grammar.Expected
import Silly.Proofs.Grammar.Finished
import Silly.Proofs.Grammar.Goals
import Silly.Proofs.Grammar.Layout
import Silly.Proofs.Grammar.Log
import Silly.Proofs.Grammar.Nodes
import Silly.Proofs.Grammar.Reading
import Silly.Proofs.Grammar.Soundness
import Silly.Proofs.Grammar.Stops
import Silly.Proofs.Grammar.Viable
import Silly.Proofs.Grammar.Watch
import Silly.Proofs.Heap.Clean
import Silly.Proofs.Heap.Eval
import Silly.Proofs.Heap.Fault
import Silly.Proofs.Heap.Growth
import Silly.Proofs.Heap.Order
import Silly.Proofs.Heap.Raises
import Silly.Proofs.Heap.Run
import Silly.Proofs.Heap.Sequence
import Silly.Proofs.Heap.Value
import Silly.Proofs.Integer.Arithmetic
import Silly.Proofs.Integer.Numeral
import Silly.Proofs.Integer.Power
import Silly.Proofs.Lexing.Concat
import Silly.Proofs.Lexing.Cut
import Silly.Proofs.Lexing.Kind
import Silly.Proofs.Lexing.Listing
import Silly.Proofs.Lexing.Lossless
import Silly.Proofs.Lines
import Silly.Proofs.Machine.Alike
import Silly.Proofs.Machine.Balance
import Silly.Proofs.Machine.Brackets
import Silly.Proofs.Machine.Depth
import Silly.Proofs.Machine.Filled
import Silly.Proofs.Machine.Isolation
import Silly.Proofs.Machine.Limit
import Silly.Proofs.Machine.Nest
import Silly.Proofs.Machine.ReadBack
import Silly.Proofs.Machine.Rename
import Silly.Proofs.Machine.Rules
import Silly.Proofs.Machine.Safety
import Silly.Proofs.Machine.Scope
import Silly.Proofs.Machine.Session
import Silly.Proofs.Machine.Signal
import Silly.Proofs.Machine.Start
import Silly.Proofs.Machine.Termination
import Silly.Proofs.Machine.Unroll
import Silly.Proofs.Machine.Update
import Silly.Proofs.Numbering
import Silly.Proofs.Table
import Silly.Proofs.Tree.Alike
import Silly.Proofs.Tree.Names
import Silly.Proofs.Tree.Parts
import Silly.Proofs.Tree.Nest
import Silly.Proofs.Tree.Rename
import Silly.RunError
import Silly.Source
import Silly.Span
import Silly.Status
import Silly.Strings
import Silly.Text.Blank
import Silly.Text.Letter
import Silly.Text.Numeric
import Silly.Text.Ranges
import Silly.Text.Table
import Silly.Token.Basic
import Silly.Token.Keyword
import Silly.Token.Kind
import Silly.Token.Lexeme
import Silly.Token.Operator
import Silly.Token.Stream
import Silly.Tree.Basic
import Silly.Tree.Display
import Silly.Value.Basic
import Silly.Value.Display
import Silly.Value.Operation
import Silly.Value.Order
