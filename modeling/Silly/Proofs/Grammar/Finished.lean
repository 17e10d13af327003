import Silly.Proofs.Grammar.Events
import Silly.Proofs.Grammar.Watch

/-!
# When a statement is finished

A statement has its entry in the log when its last token is taken, and the entry tells its first token. So
how many tokens were taken before an entry tells where the statement ends (`statementsIn`). That is what
the list of the nodes of a tree says as well, each node with its place.

What a reading leaves in the log about statements is one of the things that can be watched of it
(`Watch.statements`). A statement that is finished adds its entry. So the statements of a program are
finished in the order of its nodes (`readStatements_program`).
-/

namespace Silly

variable {names : Interner} {before : List Stmt} {t : Token} {ts : List Token} {i : Nat}

/-- **The entries about statements**, in order, each with how many tokens were taken by then. Before all of
the events there were `i`. -/
def statementsIn (i : Nat) : List Event → List (Nat × Opening)
  | [] => []
  | .advance .. :: es => statementsIn (i + 1) es
  | .parsedStatement text start :: es => (i, ⟨text, start⟩) :: statementsIn i es
  | _ :: es => statementsIn i es

/-- What a verdict lets be read on with leaves in the log. -/
def Verdict.resumeEvents (names : Interner) (before : List Stmt) (i : Nat) (ts : List Token) :
    Verdict → List Event
  | .more p => readEvents names p before i ts
  | .complete s => readEvents names .start (s :: before) i ts
  | .reject _ | .decline _ => []

/-- **The statements that are finished** in reading a row of tokens. -/
def readStatements (names : Interner) (p : Fragment) (before : List Stmt) (i : Nat)
    (ts : List Token) : List (Nat × Option Opening) :=
  (statementsIn i (readEvents names p before i ts)).map (Prod.map id some)

/-- The statements that are finished by a turn and after it. -/
def Turn.statements (turn : Turn) (names : Interner) (before : List Stmt) (i : Nat)
    (ts : List Token) : List (Nat × Option Opening) :=
  (statementsIn i (turn.events ++ turn.verdict.resumeEvents names before i ts)).map (Prod.map id some)

/-- With no token left no statement is finished. -/
theorem readStatements_nil {p : Fragment} : readStatements names p before i [] = [] := by
  rw [readStatements, readEvents]
  split <;> rfl

/-- A token finishes what its step notes, and then the tokens after it. -/
theorem readStatements_cons {p : Fragment} :
    readStatements names p before i (t :: ts) =
      (p.step names (t.named names)).statements names before (i + 1) ts := by
  have herror := (p.matches_step names names (t.named names)).error
  rw [readStatements, readEvents, Turn.statements]
  -- An error adds nothing, so it does not matter here whether its token is taken.
  cases hverdict : (p.step names (t.named names)).verdict with
  | more | complete => rfl
  | reject e =>
    rw [hverdict] at herror
    rw [herror e rfl]
    rfl
  | decline e =>
    rw [hverdict] at herror
    rw [herror e rfl]
    rfl

/-- **The entries that a reading leaves about statements** can be watched. -/
def Watch.statements (names : Interner) : Watch names (List (Nat × Option Opening)) where
  read := readStatements names
  turn turn before i ts := turn.statements names before i ts
  finish entry entries := entry :: entries
  read_cons _ _ _ _ _ := readStatements_cons
  turn_more _ _ _ _ _ _ := rfl
  turn_unary _ _ _ _ _ _ _ := rfl
  turn_binary _ _ _ _ _ _ _ := rfl
  turn_complete _ _ _ _ _ _ := rfl
  turn_push _ _ _ _ _ _ _ _ := rfl
  turn_congr hverdict hevents _ _ _ := by rw [Turn.statements, Turn.statements, hverdict, hevents]

/-- The statements that are watched are the entries of the nodes, in order. -/
theorem Watch.nodes_statements {all : List Token} (ns : List Node)
    (entries : List (Nat × Option Opening)) :
    (Watch.statements names).nodes all ns entries = ns.map (·.entry all) ++ entries := by
  induction ns with
  | nil => rfl
  | cons n ns ih => exact congrArg (_ :: ·) ih

/-- **The statements of a program are finished in the order of its nodes.** -/
theorem readStatements_program {all us : List Token} {p : Program}
    (hp : DerivesProgram names.nameOf us p) (h : all.drop i = us) :
    readStatements names .start before i us = (blockNodes i p).map (·.entry all) :=
  -- What a reading finishes can be watched, and after the program no token is left.
  calc readStatements names .start before i us
      = (Watch.statements names).nodes all (blockNodes i p)
          (readStatements names .start (p.reverse ++ before) (i + blockWidth p) []) :=
        (Watch.statements names).read_program hp h
    _ = (blockNodes i p).map (·.entry all) := by
        rw [Watch.nodes_statements, readStatements_nil, List.append_nil]

end Silly
