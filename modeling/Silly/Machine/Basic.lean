import Silly.Environment
import Silly.Log
import Silly.Printer
import Silly.Tree.Basic

/-!
# The state of a run

A `Machine` holds all that a running program can change, and the limit on the depth of its calls.
The table of names is not part of it. A run only reads names, so they are an argument of whatever
needs them, and a machine can go on with a table that has grown since.
-/

namespace Silly

/-- A subroutine: its body, and the place of the frame in which it was defined. -/
structure Subroutine where
  body : Block
  scope : FrameId

/-- **The state of a run**, with strings of type `σ` whose texts are in a store of type `H`. -/
structure Machine (σ : Type := Handle) (H : Type := Heap) where
  heap : H
  env : Environment (Value σ)
  /-- The subroutines defined so far. -/
  subs : List (Name × Subroutine)
  printer : Printer
  /-- How many calls are active. -/
  calls : Nat
  /-- How many calls may be active. -/
  maxCalls : Nat
  /-- What was done, newest first. -/
  log : List Event

namespace Machine

variable {σ H : Type}

/-- The limit on calls where none is given. -/
def defaultMaxCalls : Nat := 1000

/-- A machine that has run nothing, with the strings that `heap` holds. -/
def start (heap : H) (printer : Printer) (maxCalls : Nat) : Machine σ H :=
  ⟨heap, .initial, [], printer, 0, maxCalls, []⟩

/-- **A machine that has run nothing**, and has no strings. -/
def initial (printer : Printer) (maxCalls : Nat) : Machine := start .empty printer maxCalls

/-- The machine with one more event in its log. -/
def note (m : Machine σ H) (e : Event) : Machine σ H :=
  let ⟨heap, env, subs, printer, calls, maxCalls, log⟩ := m
  ⟨heap, env, subs, printer, calls, maxCalls, e :: log⟩

/-- The machine after its printer was given a line. -/
def print (m : Machine σ H) (s : String) : Machine σ H :=
  let ⟨heap, env, subs, printer, calls, maxCalls, log⟩ := m
  ⟨heap, env, subs, printer.println s, calls, maxCalls, log⟩

/-- A new innermost frame inside the one that was innermost. -/
def enterScope (m : Machine σ H) : Machine σ H :=
  let ⟨heap, env, subs, printer, calls, maxCalls, log⟩ := m
  let env := env.beginScope
  ⟨heap, env, subs, printer, calls, maxCalls, .beginScope env.depth :: log⟩

/-- A new innermost frame inside the one at `parent`. -/
def enterScopeIn (m : Machine σ H) (parent : FrameId) : Outcome Unit × Machine σ H :=
  let ⟨heap, env, subs, printer, calls, maxCalls, log⟩ := m
  match env.beginScopeIn parent with
  | (.ok (), env) =>
    (.ok (), ⟨heap, env, subs, printer, calls, maxCalls, .beginScope env.depth :: log⟩)
  | (.error f, env) => (.error (.fault f), ⟨heap, env, subs, printer, calls, maxCalls, log⟩)

/-- The end of the innermost frame. -/
def leaveScope (m : Machine σ H) : Machine σ H :=
  let ⟨heap, env, subs, printer, calls, maxCalls, log⟩ := m
  let env := env.endScope
  ⟨heap, env, subs, printer, calls, maxCalls, .endScope env.depth :: log⟩

/-- One more subroutine is defined. -/
def addSub (m : Machine σ H) (x : Name) (sub : Subroutine) : Machine σ H :=
  { m with subs := (x, sub) :: m.subs }

/-- One more call is active. -/
def beginCall (m : Machine σ H) : Machine σ H :=
  let ⟨heap, env, subs, printer, calls, maxCalls, log⟩ := m
  ⟨heap, env, subs, printer, calls + 1, maxCalls, log⟩

/-- The end of the innermost call, after that of its frame. -/
def leaveCall (m : Machine σ H) : Machine σ H :=
  let ⟨heap, env, subs, printer, calls, maxCalls, log⟩ := m
  ⟨heap, env, subs, printer, calls - 1, maxCalls, .exitCall :: log⟩

end Machine

end Silly
