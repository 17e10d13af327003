/-!
# Where printed lines go

A printer takes the lines that a program prints. One writes them out, one holds them to be looked
at, and one drops them. Lines that were written out are gone as far as the program can tell, so
only held text can be asked for and cleared.
-/

namespace Silly

/-- **A printer**, with all that it was given. -/
inductive Printer
  /-- Lines are written out; `sent` was. -/
  | stdout (sent : String)
  /-- Lines are held; `held` is. -/
  | buffer (held : String)
  /-- Lines are dropped. -/
  | silent

namespace Printer

/-- **One more line.** -/
def println : Printer → String → Printer
  | stdout sent, s => stdout (sent ++ s ++ "\n")
  | buffer held, s => buffer (held ++ s ++ "\n")
  | silent, _ => silent

/-- The text that is held. -/
def held : Printer → String
  | buffer text => text
  | stdout _ | silent => ""

/-- The text that was written out. -/
def sent : Printer → String
  | stdout text => text
  | buffer _ | silent => ""

/-- The printer without the text that it held. -/
def clear : Printer → Printer
  | buffer _ => buffer ""
  | p => p

end Printer

end Silly
