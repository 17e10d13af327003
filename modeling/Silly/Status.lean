/-!
# How a statement finishes
-/

namespace Silly

/-- **How a statement finishes** when it does not fail. -/
inductive Status
  /-- The next statement runs. -/
  | ok
  /-- The nearest enclosing loop ends. -/
  | «break»
  /-- The program ends. -/
  | exit
  deriving DecidableEq

/-- The status as the log shows it. -/
def Status.text : Status → String
  | ok => "Ok"
  | «break» => "Break"
  | exit => "Exit"

end Silly
