import Silly.Name
import Silly.RunError

/-!
# Scopes

Each execution of a block has a frame of its own, which holds the variables declared in it. A frame
knows the frame around it, its parent. That is the frame in which the block stands in the program,
and not always the one that was innermost when the block was entered: a subroutine's body stands
where it was defined. A variable is the nearest one of its name on the chain of parents.

Frames are stored in an array and known by their places in it. The live ones are listed beside it,
innermost last. A frame that ends frees its place, and all places after it, for later frames. So a
place names a frame only for as long as that frame is live, and the chain of a live frame has to
consist of live frames. A place at which no frame is stored is a `Fault`.

An operation that changes the frames hands them on whether it succeeds or not. When it fails they
are as they were.
-/

namespace Silly

/-- The place of a frame. -/
abbrev FrameId := Nat

/-- The place of the frame that the whole program stands in. -/
def FrameId.global : FrameId := 0

/-- **The variables of one execution of a block**, with values of type `α`. A variable that is
declared but has no value yet is bound to nothing. -/
structure Frame (α : Type := Value) where
  bindings : List (Name × Option α)
  parent : Option FrameId

namespace Frame

variable {α : Type}

/-- What a variable is bound to, if it is declared here. -/
def binding? (f : Frame α) (x : Name) : Option (Option α) := f.bindings.lookup x

/-- Whether a variable is declared here. -/
def declares (f : Frame α) (x : Name) : Bool := (f.binding? x).isSome

/-- The frame with one more variable, which has no value. -/
def declare (f : Frame α) (x : Name) : Frame α := { f with bindings := (x, none) :: f.bindings }

/-- The frame with a value for a variable that is declared here. -/
def assign (f : Frame α) (x : Name) (v : α) : Frame α :=
  { f with bindings := f.bindings.map fun b => if b.1 = x then (x, some v) else b }

end Frame

/-- Why a variable cannot be used. -/
inductive ScopeError
  | undeclared (name : Name)
  | alreadyDeclared (name : Name)
  | unassigned (name : Name)
  deriving DecidableEq

/-- The name that the error is about. -/
def ScopeError.name : ScopeError → Name
  | undeclared x | alreadyDeclared x | unassigned x => x

/-- Why an operation on scopes fails: the variable cannot be used, or there is a fault. -/
inductive ScopeStop
  | error (e : ScopeError)
  | fault (f : Fault)
  deriving DecidableEq

/-- The outcome of an operation on scopes. -/
abbrev ScopeOutcome (α : Type) := Except ScopeStop α

/-- **The frames of a run.** -/
structure Environment (α : Type := Value) where
  frames : Array (Frame α)
  /-- The places of the live frames, innermost last. -/
  live : Array FrameId

namespace Environment

variable {α : Type}

/-- The environment in which only the global frame is live. -/
def initial : Environment α := ⟨#[⟨[], none⟩], #[FrameId.global]⟩

/-- How many frames are live. -/
def depth (env : Environment α) : Nat := env.live.size

/-- The innermost live frame. -/
def current (env : Environment α) : FrameId := env.live.back?.getD FrameId.global

/-- Whether the innermost live frame is the global one. -/
def inGlobal (env : Environment α) : Bool := env.current = FrameId.global

/-- The frame at a place. -/
def frame (env : Environment α) (id : FrameId) : Except Fault (Frame α) :=
  match env.frames[id]? with
  | some f => .ok f
  | none => .error (.frame id)

/-- **A new innermost frame** with the given parent, which has to be live. A place is a number that is
not bounded here. The interpreter keeps it in 32 bits and gives up where it does not fit, so it is assumed
that fewer than `2 ^ 32` frames are live. -/
def beginScopeIn (env : Environment α) (parent : FrameId) : Except Fault Unit × Environment α :=
  if env.live.contains parent then
    (.ok (), ⟨env.frames.push ⟨[], some parent⟩, env.live.push env.frames.size⟩)
  else (.error (.frame parent), env)

/-- A new innermost frame with the frame that was innermost as its parent. As in `beginScopeIn`, fewer
than `2 ^ 32` frames are assumed to be live. -/
def beginScope (env : Environment α) : Environment α :=
  ⟨env.frames.push ⟨[], some env.current⟩, env.live.push env.frames.size⟩

/-- **The end of the innermost frame.** Its place and all places after it are free again. The
global frame does not end. -/
def endScope (env : Environment α) : Environment α :=
  if 1 < env.live.size then ⟨env.frames.shrink env.current, env.live.pop⟩ else env

/-- Walking up the chain of parents from the frame at `id` to the nearest one that declares `x`. A
chain has no more frames than there are, and `bound` counts those that may still come. -/
def search (env : Environment α) (x : Name) (id : FrameId) : Nat → Except Fault (Option FrameId)
  | 0 => .error .parents
  | bound + 1 =>
    match env.frame id with
    | .error e => .error e
    | .ok f =>
      if f.declares x then .ok (some id)
      else
        match f.parent with
        | none => .ok none
        | some parent => env.search x parent bound

/-- **The nearest frame that declares a variable**, if one does. -/
def find (env : Environment α) (x : Name) : Except Fault (Option FrameId) :=
  env.search x env.current env.frames.size

/-- Whether a variable is declared in the innermost frame or in one around it. -/
def isDeclared (env : Environment α) (x : Name) : Except Fault Bool := (env.find x).map (·.isSome)

/-- Whether a variable is declared in the innermost frame itself. -/
def isLocal (env : Environment α) (x : Name) : Except Fault Bool :=
  (env.frame env.current).map (·.declares x)

/-- The environment with the frame at a place changed. -/
def modify (env : Environment α) (id : FrameId) (f : Frame α → Frame α) : Environment α :=
  { env with frames := env.frames.modify id f }

/-- **A new variable** in the innermost frame, without a value. -/
def declare (env : Environment α) (x : Name) : ScopeOutcome Unit × Environment α :=
  match env.isLocal x with
  | .error e => (.error (.fault e), env)
  | .ok true => (.error (.error (.alreadyDeclared x)), env)
  | .ok false => (.ok (), env.modify env.current (·.declare x))

/-- **A new value** for a variable, in the nearest frame that declares it. -/
def store (env : Environment α) (x : Name) (v : α) : ScopeOutcome Unit × Environment α :=
  match env.find x with
  | .error e => (.error (.fault e), env)
  | .ok none => (.error (.error (.undeclared x)), env)
  | .ok (some id) => (.ok (), env.modify id (·.assign x v))

/-- **The value of a variable**, from the nearest frame that declares it. -/
def lookup (env : Environment α) (x : Name) : ScopeOutcome α :=
  match env.find x with
  | .error e => .error (.fault e)
  | .ok none => .error (.error (.undeclared x))
  | .ok (some id) =>
    match env.frame id with
    | .error e => .error (.fault e)
    | .ok f =>
      match f.binding? x with
      | some (some v) => .ok v
      | _ => .error (.error (.unassigned x))

end Environment

end Silly
