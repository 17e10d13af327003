import Silly.Machine.Basic

/-!
# Options of a run

The one option is the limit on nested calls, given as `--max-depth=` and a decimal number of at
most 64 bits, which may have a plus sign before it. A text that is not of this form is no option,
and then the options stay as they were.
-/

namespace Silly

/-- **The options of a run.** -/
structure Options where
  /-- How many calls may be active at once. -/
  maxCalls : Nat
  deriving DecidableEq

namespace Options

/-- The options where none are given. -/
def default : Options := ⟨Machine.defaultMaxCalls⟩

/-- The value of a row of decimal digits that is not empty and fits in 64 bits. -/
def readDigits? (ds : List Char) : Option Nat :=
  let n := ds.foldl (fun n c => 10 * n + (c.toNat - '0'.toNat)) 0
  if ds ≠ [] ∧ ds.all (·.isDigit) = true ∧ n < UInt64.size then some n else none

/-- A limit as it is written: digits, with a plus sign before them or without. -/
def readLimit? : List Char → Option Nat
  | '+' :: ds => readDigits? ds
  | ds => readDigits? ds

/-- What stands before a limit. -/
def limitFlag : List Char := "--max-depth=".toList

/-- **The options with one flag applied**, if it is one. -/
def withFlag? (o : Options) (flag : String) : Option Options :=
  let cs := flag.toList
  if cs.take limitFlag.length = limitFlag then
    (readLimit? (cs.drop limitFlag.length)).map fun n => { o with maxCalls := n }
  else none

end Options

end Silly
