/-!
# The fixed words of the language

Two closed lists of words. A *statement keyword* begins a statement; the other keywords stand
inside one, between its parts or at its end. The order of the lists is the order in which a fresh
table of names holds them, and a statement keyword's place in its list is its index.
-/

namespace Silly

/-- The words that begin a statement. -/
inductive StatementKeyword
  | var | print | «if» | «while» | «repeat» | sub | call | exit | «break»
  deriving DecidableEq

namespace StatementKeyword

/-- All of them, in the order of their indices. -/
def all : List StatementKeyword :=
  [var, print, «if», «while», «repeat», sub, call, exit, «break»]

/-- The word as it is written. -/
def text : StatementKeyword → String
  | var => "var"
  | print => "print"
  | «if» => "if"
  | «while» => "while"
  | «repeat» => "repeat"
  | sub => "sub"
  | call => "call"
  | exit => "exit"
  | «break» => "break"

/-- The keyword's place in `all`. -/
def index (k : StatementKeyword) : Nat := k.ctorIdx

/-- The keyword with the given spelling. -/
def ofText? (s : String) : Option StatementKeyword := all.find? (·.text = s)

theorem all_index (k : StatementKeyword) : all[k.index]? = some k := by cases k <;> rfl

theorem ofText?_text (k : StatementKeyword) : ofText? k.text = some k := by cases k <;> decide

end StatementKeyword

/-- The words that stand inside a statement or end it. -/
inductive Keyword
  | gets | «then» | elseif | «else» | endif | «do» | endwhile | times | endrepeat | endsub
  deriving DecidableEq

namespace Keyword

/-- All of them, in the order in which a fresh table of names holds them. -/
def all : List Keyword :=
  [gets, «then», elseif, «else», endif, «do», endwhile, times, endrepeat, endsub]

/-- The word as it is written. -/
def text : Keyword → String
  | gets => "gets"
  | «then» => "then"
  | elseif => "elseif"
  | «else» => "else"
  | endif => "endif"
  | «do» => "do"
  | endwhile => "endwhile"
  | times => "times"
  | endrepeat => "endrepeat"
  | endsub => "endsub"

/-- The keyword with the given spelling. -/
def ofText? (s : String) : Option Keyword := all.find? (·.text = s)

theorem ofText?_text (k : Keyword) : ofText? k.text = some k := by cases k <;> decide

end Keyword

end Silly
