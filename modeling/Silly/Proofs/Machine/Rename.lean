import Mathlib.Data.Option.Basic
import Silly.Proofs.Environment.Rename
import Silly.Proofs.Heap.Raises
import Silly.Proofs.Machine.Limit
import Silly.Proofs.Tree.Rename

/-!
# Runs do not depend on the choice of names

A run of a renamed tree takes the same steps as that of the tree itself. What it has come to is at each
point the other's machine with the names in it changed (`Machine.rename`): the variables in the
environment, the subroutines and what is in their bodies, and the names of subroutines in the log.
Nothing else in a machine depends on names, so the two have the same heap and have printed the same.

They are also stopped by the same, but for the names in it (`Renaming.SameStop`). A statement about
variables and an expression can only complain about a variable, and `sub` and `call` only about a
subroutine, so the error itself says which of the two renamings applies to its name (`RunError.rename`).

As no relation between the two machines is needed but that one is a function of the other, each lemma is
an equation, or says that two outcomes are the same with the machine changed (`Renaming.SameResult`).
-/

namespace Silly

/-! ### What names a run shows -/

/-- **The same error about other names.** The first four kinds are about variables or subroutines; all
others name nothing. -/
def RunError.rename (varText subText : String → String) : RunError → RunError
  | undeclaredVariable s => undeclaredVariable (varText s)
  | alreadyDeclared s => alreadyDeclared (varText s)
  | unassignedVariable s => unassignedVariable (varText s)
  | alreadyDefined s => alreadyDefined (subText s)
  | undefinedSubroutine s => undefinedSubroutine (subText s)
  | typeMismatch operation found => typeMismatch operation found
  | divisionByZero op => divisionByZero op
  | indexOutOfRange i n => indexOutOfRange i n
  | integerOverflow op => integerOverflow op
  | recursionLimitExceeded n => recursionLimitExceeded n

/-- Computing with values complains about no name. -/
theorem RunError.OfValues.rename {e : RunError} (he : e.OfValues) (varText subText : String → String) :
    e.rename varText subText = e := by
  cases e with
  | typeMismatch | divisionByZero | indexOutOfRange | integerOverflow => rfl
  | _ => exact he.elim

/-- The same entry of the log about another subroutine. -/
def Event.rename (subText : String → String) : Event → Event
  | defineSubroutine s => defineSubroutine (subText s)
  | callSubroutine s => callSubroutine (subText s)
  | e => e

/-- A subroutine with the names in its body changed. -/
def Subroutine.rename (r : NameMaps) (sub : Subroutine) : Subroutine :=
  ⟨renameBlock r sub.body, sub.scope⟩

/-- A task with the names in it changed. -/
def Task.rename (r : NameMaps) : Task → Task
  | .run rest => .run (renameBlock r rest)
  | .leaveScope => .leaveScope
  | .leaveCall => .leaveCall
  | .whileDo cond body => .whileDo (cond.rename r) (renameBlock r body)
  | .repeatTimes left body => .repeatTimes left (renameBlock r body)

variable {names names' : Interner}

/-- **A machine with the names in it changed.** -/
def Machine.rename (r : Renaming names names') (m : Machine) : Machine :=
  ⟨m.heap, m.env.rename r.var, m.subs.map fun s => (r.sub s.1, s.2.rename r.toNameMaps), m.printer,
    m.calls, m.maxCalls, m.log.map (Event.rename r.subText)⟩

/-! ### The same outcomes -/

namespace Renaming

variable {α β β' : Type}

/-- **What stops the one run and the other**: the same error with its name renamed, or the same fault. A
number that is no name may be another one. -/
inductive SameStop (r : Renaming names names') : Stop → Stop → Prop
  | error (e : RunError) : SameStop r (.error e) (.error (e.rename r.varText r.subText))
  | fault (f : Fault) : SameStop r (.fault f) (.fault f)
  | noName {x x' : Name} : names.text? x = none → names'.text? x' = none →
      SameStop r (.fault (.name x.index)) (.fault (.name x'.index))

/-- **Two outcomes that are the same**, but for the names in what stops them. -/
inductive SameOutcome (r : Renaming names names') : Outcome α → Outcome α → Prop
  | ok (a : α) : SameOutcome r (.ok a) (.ok a)
  | error {s s' : Stop} : r.SameStop s s' → SameOutcome r (.error s) (.error s')

/-- **Two computations with the same outcome**, of which the second has come to what `g` makes of that
which the first has come to. -/
inductive SameResult (r : Renaming names names') (g : β → β') : Outcome α × β → Outcome α × β' → Prop
  | ok (a : α) (b : β) : SameResult r g (.ok a, b) (.ok a, g b)
  | error {s s' : Stop} (b : β) : r.SameStop s s' → SameResult r g (.error s, b) (.error s', g b)

variable (r : Renaming names names')

theorem SameOutcome.result {r : Renaming names names'} {o o' : Outcome α} (h : r.SameOutcome o o')
    (g : β → β') (b : β) : r.SameResult g (o, b) (o', g b) := by
  cases h with
  | ok a => exact .ok a b
  | error hs => exact .error b hs

/-- What is stopped by values or faults only is not about names. -/
theorem sameStop_of_ofValues (e : RunError) (he : e.OfValues) :
    r.SameStop (.error e) (.error e) := by
  have hsame := SameStop.error (r := r) e
  rwa [he.rename] at hsame

theorem sameOutcome_of_raises {o : Outcome α} (h : Raises (fun s => r.SameStop s s) o) :
    r.SameOutcome o o := by
  cases o with
  | ok a => exact .ok a
  | error s => exact .error h.of_error

theorem sameResult_of_raises {res : Outcome α × β} (h : Raises (fun s => r.SameStop s s) res.1) :
    r.SameResult id res res :=
  (r.sameOutcome_of_raises h).result id res.2

/-- **The text of a name** in the one table and in the other, if both have one. -/
theorem resolve_cases {f : String → String} {x x' : Name}
    (hx : names'.text? x' = (names.text? x).map f) :
    (∃ s, names.resolve x = .ok s ∧ names'.resolve x' = .ok (f s)) ∨
      ∃ s s', names.resolve x = .error s ∧ names'.resolve x' = .error s' ∧ r.SameStop s s' := by
  unfold Interner.resolve
  rw [hx]
  cases htext : names.text? x with
  | some s => exact .inl ⟨s, rfl, rfl⟩
  -- Neither table has a text, so both complain about a number that is no name.
  | none =>
    have htext' : names'.text? x' = none := by rw [hx, htext, Option.map_none]
    exact .inr ⟨_, _, rfl, rfl, .noName htext htext'⟩

/-- **A complaint about a variable** names the renamed variable. -/
theorem sameStop_scopeError (e : ScopeError) :
    r.SameStop (e.stop names) ((e.rename r.var).stop names') := by
  unfold ScopeError.stop
  rw [e.rename_name r.var]
  -- The text of the complaint is looked up in each table, and may be missing in both.
  obtain ⟨s, hs, hs'⟩ | ⟨s, s', hs, hs', hstop⟩ := r.resolve_cases (r.var_text? e.name)
  · rw [hs, hs']
    cases e with
    | undeclared | alreadyDeclared | unassigned => exact .error _
  · rw [hs, hs']
    exact hstop

/-- **An operation on scopes** comes to the same about the renamed variable. -/
theorem sameOutcome_scope (o : ScopeOutcome α) :
    r.SameOutcome (o.outcome names) (ScopeOutcome.outcome names' (o.rename r.var)) := by
  obtain (e | f) | a := o
  · exact .error (r.sameStop_scopeError e)
  · exact .error (.fault f)
  · exact .ok a

end Renaming

/-! ### Expressions -/

section Eval

variable (r : Renaming names names') (env : Environment)

mutual
/-- **A renamed expression** comes to the same value where the variables are renamed. -/
theorem Expr.sameResult_rename : ∀ (e : Expr) (h : Heap),
    r.SameResult id (e.eval names env h)
      ((e.rename r.toNameMaps).eval names' (env.rename r.var) h)
  | .int n, h => .ok (Value.int n) h
  | .bool b, h => .ok (Value.bool b) h
  | .str x, h => by
    have htext : names'.text? (r.str x) = (names.text? x).map id := by
      rw [r.str_text?, Option.map_id_apply]
    simp only [Expr.rename, Expr.eval]
    -- The text of a literal is the same, so the same string is made.
    obtain ⟨s, hs, hs'⟩ | ⟨s, s', hs, hs', hstop⟩ := r.resolve_cases htext
    · rw [hs, hs']
      exact r.sameResult_of_raises (raises_ok _)
    · rw [hs, hs']
      exact .error h hstop
  | .var x, h => by
    simp only [Expr.rename, Expr.eval, env.rename_lookup x r.var_injective]
    exact (r.sameOutcome_scope (env.lookup x)).result id h
  | .list es, h => by
    -- The items come first, and the list is made of their values.
    have hitems := items_sameResult_rename es h
    simp only [Expr.rename, Expr.eval]
    generalize evalItems names env es h = res, evalItems names' _ _ h = res' at hitems
    cases hitems with
    | ok vs h' => exact .ok _ h'
    | error h' hs => exact .error h' hs
  | .unary op e, h => by
    have hoperand := e.sameResult_rename h
    simp only [Expr.rename, Expr.eval]
    generalize e.eval names env h = res, (e.rename r.toNameMaps).eval names' _ h = res' at hoperand
    cases hoperand with
    | ok v h' =>
      -- The operand has the same value, and what is done with it does not depend on names.
      exact (r.sameOutcome_of_raises
        (op.raises_apply r.sameStop_of_ofValues (raises_text Renaming.SameStop.fault) h' v)).result id h'
    | error h' hs => exact .error h' hs
  | .binary op l r', h => by
    -- The left operand is evaluated first, and the right one in the heap that it leaves.
    have hleft := l.sameResult_rename h
    simp only [Expr.rename, Expr.eval]
    generalize l.eval names env h = res, (l.rename r.toNameMaps).eval names' _ h = res' at hleft
    cases hleft with
    | error h' hs => exact .error h' hs
    | ok v h' =>
      have hright := r'.sameResult_rename h'
      dsimp only [id]
      generalize r'.eval names env h' = res, (r'.rename r.toNameMaps).eval names' _ h' = res'
        at hright
      cases hright with
      | error h'' hs => exact .error h'' hs
      | ok w h'' =>
        exact r.sameResult_of_raises
          (op.raises_apply r.sameStop_of_ofValues (raises_text Renaming.SameStop.fault) v w h'')

/-- The items of a list. -/
theorem items_sameResult_rename : ∀ (es : List Expr) (h : Heap),
    r.SameResult id (evalItems names env es h)
      (evalItems names' (env.rename r.var) (renameItems r.toNameMaps es) h)
  | [], h => .ok [] h
  | e :: es, h => by
    -- So it is with the first item and the others.
    have hfirst := e.sameResult_rename h
    simp only [renameItems, evalItems]
    generalize e.eval names env h = res, (e.rename r.toNameMaps).eval names' _ h = res' at hfirst
    cases hfirst with
    | error h' hs => exact .error h' hs
    | ok v h' =>
      have hrest := items_sameResult_rename es h'
      dsimp only [id]
      generalize evalItems names env es h' = res, evalItems names' _ _ h' = res' at hrest
      cases hrest with
      | error h'' hs => exact .error h'' hs
      | ok vs h'' => exact .ok _ h''
end

end Eval

/-! ### Machines -/

namespace Machine

variable (r : Renaming names names') (m : Machine) (x : Name)

theorem rename_initial (printer : Printer) (maxCalls : Nat) :
    (initial printer maxCalls).rename r = initial printer maxCalls := by
  simp [initial, start, rename]

theorem rename_enterScope : (m.rename r).enterScope = m.enterScope.rename r := by
  simp [enterScope, rename, Event.rename]

theorem rename_leaveScope : (m.rename r).leaveScope = m.leaveScope.rename r := by
  simp [leaveScope, rename, Event.rename]

/-- **A variable is declared** under its new name if it was under the old one. -/
theorem rename_isDeclared : (m.rename r).env.isDeclared (r.var x) = m.env.isDeclared x :=
  m.env.rename_isDeclared x r.var_injective

/-- **A subroutine** is found under its new name if it was found under the old one. -/
theorem rename_lookup :
    (m.rename r).subs.lookup (r.sub x) =
      (m.subs.lookup x).map (Subroutine.rename r.toNameMaps) :=
  lookup_map_injective r.sub_injective (Subroutine.rename r.toNameMaps) m.subs x

/-- **A frame** is opened or refused in both. -/
theorem sameResult_enterScopeIn (parent : FrameId) :
    r.SameResult (Machine.rename r) (m.enterScopeIn parent) ((m.rename r).enterScopeIn parent) := by
  simp only [enterScopeIn, rename, Environment.rename_beginScopeIn]
  -- The frames have the same identities, so a parent is live in both or in neither.
  obtain ⟨f | ⟨⟩, env⟩ := m.env.beginScopeIn parent
  · exact .error (Machine.mk m.heap env m.subs m.printer m.calls m.maxCalls m.log) (.fault f)
  · exact .ok () (Machine.mk m.heap env m.subs m.printer m.calls m.maxCalls
      (.beginScope env.depth :: m.log))

/-- **A declaration** of the renamed variable. -/
theorem sameResult_declare :
    r.SameResult (Machine.rename r) (m.declare names x) ((m.rename r).declare names' (r.var x)) := by
  simp only [declare, rename, m.env.rename_declare x r.var_injective]
  exact (r.sameOutcome_scope (m.env.declare x).1).result (Machine.rename r)
    ⟨m.heap, (m.env.declare x).2, m.subs, m.printer, m.calls, m.maxCalls, m.log⟩

/-- **Storing** to the renamed variable. -/
theorem sameResult_store (v : Value) :
    r.SameResult (Machine.rename r) (m.store names x v)
      ((m.rename r).store names' (r.var x) v) := by
  simp only [store, rename, m.env.rename_store x r.var_injective v]
  exact (r.sameOutcome_scope (m.env.store x v).1).result (Machine.rename r)
    ⟨m.heap, (m.env.store x v).2, m.subs, m.printer, m.calls, m.maxCalls, m.log⟩

/-- **An evaluation** of the renamed expression. -/
theorem sameResult_eval (e : Expr) :
    r.SameResult (Machine.rename r) (m.eval names e)
      ((m.rename r).eval names' (e.rename r.toNameMaps)) := by
  have heval := e.sameResult_rename r m.env m.heap
  simp only [eval, rename]
  generalize e.eval names m.env m.heap = res, (e.rename r.toNameMaps).eval names' _ m.heap = res'
    at heval
  cases heval with
  | ok v h => exact .ok v (Machine.mk h m.env m.subs m.printer m.calls m.maxCalls m.log)
  | error h hs => exact .error (Machine.mk h m.env m.subs m.printer m.calls m.maxCalls m.log) hs

/-- **A test** of the renamed condition. -/
theorem sameResult_test (operation : Operation) (e : Expr) :
    r.SameResult (Machine.rename r) (m.test names operation e)
      ((m.rename r).test names' operation (e.rename r.toNameMaps)) := by
  have heval := m.sameResult_eval r e
  unfold test
  generalize m.eval names e = res, (m.rename r).eval names' _ = res' at heval
  cases heval with
  | error m' hs => exact .error m' hs
  | ok v m' =>
    have hbool := r.sameOutcome_of_raises (v.raises_toBool r.sameStop_of_ofValues operation)
    exact hbool.result (Machine.rename r) m'

end Machine

/-! ### Points of a run -/

/-- **A point of a run and one of the run of the renamed tree.** -/
structure Config.Renames (r : Renaming names names') (c c' : Config) : Prop where
  signal : r.SameOutcome c.signal c'.signal
  control : c'.control = c.control.map (Task.rename r.toNameMaps)
  machine : c'.machine = c.machine.rename r

section Step

variable (r : Renaming names names') (k : List Task) (m : Machine) (x : Name)

theorem renames_enterBlock (body : Block) :
    (enterBlock body k m).Renames r
      (enterBlock (renameBlock r.toNameMaps body) (k.map (Task.rename r.toNameMaps)) (m.rename r)) :=
  ⟨.ok _, rfl, m.rename_enterScope r⟩

/-- **Evaluating and storing.** -/
theorem renames_evalStore (e : Expr) :
    (Machine.evalStore names x e k m).Renames r
      (Machine.evalStore names' (r.var x) (e.rename r.toNameMaps)
        (k.map (Task.rename r.toNameMaps)) (m.rename r)) := by
  -- The values are the same. What stops the one run stops the other.
  have heval := m.sameResult_eval r e
  unfold Machine.evalStore
  generalize m.eval names e = res, (m.rename r).eval names' _ = res' at heval
  cases heval with
  | error m' hs => exact ⟨.error hs, rfl, rfl⟩
  | ok v m' =>
    have hstore := m'.sameResult_store r x v
    dsimp only
    generalize m'.store names x v = res, (m'.rename r).store names' (r.var x) v = res' at hstore
    cases hstore with
    | error m'' hs => exact ⟨.error hs, rfl, rfl⟩
    | ok _ m'' => exact ⟨.ok _, rfl, rfl⟩

/-- **An assignment** to the renamed variable. -/
theorem renames_assign (e : Expr) :
    (Machine.assign names x e k m).Renames r
      (Machine.assign names' (r.var x) (e.rename r.toNameMaps)
        (k.map (Task.rename r.toNameMaps)) (m.rename r)) := by
  unfold Machine.assign
  rw [m.rename_isDeclared r x]
  cases m.env.isDeclared x with
  | error f => exact ⟨.error (.fault f), rfl, rfl⟩
  | ok declared =>
    cases declared with
    -- The complaint is about the variable, so it is the renamed one in the other run.
    | false => exact ⟨.error (r.sameStop_scopeError (.undeclared x)), rfl, rfl⟩
    | true => exact renames_evalStore r k m x e

/-- **A declaration** of the renamed variable, with its value. -/
theorem renames_declareStore (e : Expr) :
    (Machine.declareStore names x e k m).Renames r
      (Machine.declareStore names' (r.var x) (e.rename r.toNameMaps)
        (k.map (Task.rename r.toNameMaps)) (m.rename r)) := by
  have hdeclare := m.sameResult_declare r x
  unfold Machine.declareStore
  generalize m.declare names x = res, (m.rename r).declare names' (r.var x) = res' at hdeclare
  cases hdeclare with
  | error m' hs => exact ⟨.error hs, rfl, rfl⟩
  | ok _ m' => exact renames_evalStore r k m' x e

/-- **A `print`** of the renamed expression. -/
theorem renames_printValue (e : Expr) :
    (Machine.printValue names e k m).Renames r
      (Machine.printValue names' (e.rename r.toNameMaps) (k.map (Task.rename r.toNameMaps))
        (m.rename r)) := by
  have heval := m.sameResult_eval r e
  unfold Machine.printValue
  generalize m.eval names e = res, (m.rename r).eval names' _ = res' at heval
  cases heval with
  | error m' hs => exact ⟨.error hs, rfl, rfl⟩
  | ok v m' =>
    -- The heap is the same, so the line is.
    have hprinted : r.SameOutcome (v.printed m'.heap) (v.printed (m'.rename r).heap) :=
      r.sameOutcome_of_raises
        (v.raises_printed (raises_text Renaming.SameStop.fault) m'.heap)
    dsimp only
    generalize v.printed m'.heap = line, v.printed (m'.rename r).heap = line' at hprinted
    cases hprinted with
    | error hs => exact ⟨.error hs, rfl, rfl⟩
    | ok line => exact ⟨.ok _, rfl, rfl⟩

/-- **A `repeat`** with a renamed count. -/
theorem renames_beginRepeat (count : Expr) (body : Block) :
    (Machine.beginRepeat names count body k m).Renames r
      (Machine.beginRepeat names' (count.rename r.toNameMaps) (renameBlock r.toNameMaps body)
        (k.map (Task.rename r.toNameMaps)) (m.rename r)) := by
  have heval := m.sameResult_eval r count
  unfold Machine.beginRepeat
  generalize m.eval names count = res, (m.rename r).eval names' _ = res' at heval
  cases heval with
  | error m' hs => exact ⟨.error hs, rfl, rfl⟩
  | ok v m' =>
    -- A count that is no integer is refused without a name.
    have hint := r.sameOutcome_of_raises (v.raises_toInt r.sameStop_of_ofValues .repeatCount)
    dsimp only
    cases hcount : v.toInt .repeatCount with
    | error s =>
      have hstop : r.SameOutcome (.error s : Outcome Int64) (.error s) := hcount ▸ hint
      cases hstop with
      | error hs => exact ⟨.error hs, rfl, rfl⟩
    | ok n => exact ⟨.ok _, rfl, rfl⟩

/-- **A definition** under its new name. -/
theorem renames_define (body : Block) :
    (Machine.define names x body k m).Renames r
      (Machine.define names' (r.sub x) (renameBlock r.toNameMaps body)
        (k.map (Task.rename r.toNameMaps)) (m.rename r)) := by
  unfold Machine.define
  -- The new name is taken exactly if the old one was.
  rw [m.rename_lookup r x, Option.isSome_map]
  obtain ⟨s, hs, hs'⟩ | ⟨s, s', hs, hs', hstop⟩ := r.resolve_cases (r.sub_text? x)
  -- The text of the subroutine is changed by the other function than that of a variable.
  · rw [hs, hs']
    dsimp only
    split
    · exact ⟨.error (.error (.alreadyDefined s)), rfl, rfl⟩
    · exact ⟨.ok _, rfl, rfl⟩
  · rw [hs, hs']
    exact ⟨.error hstop, rfl, rfl⟩

/-- **A call** under its new name. -/
theorem renames_invoke (name : String) : ∀ sub : Option Subroutine,
    (Machine.invoke name k m sub).Renames r
      (Machine.invoke (r.subText name) (k.map (Task.rename r.toNameMaps)) (m.rename r)
        (sub.map (Subroutine.rename r.toNameMaps)))
  | none => ⟨.error (.error (.undefinedSubroutine name)), rfl, rfl⟩
  | some sub => by
    have hscope := m.sameResult_enterScopeIn r sub.scope
    -- The limit and the calls are the same in both, so one test decides.
    show Config.Renames r (if m.maxCalls ≤ m.calls then _ else _) (if m.maxCalls ≤ m.calls then _ else _)
    split
    · exact ⟨.error (.error (.recursionLimitExceeded m.maxCalls)), rfl, rfl⟩
    · simp only [Subroutine.rename]
      generalize m.enterScopeIn sub.scope = res, (m.rename r).enterScopeIn sub.scope = res' at hscope
      cases hscope with
      | error m' hs => exact ⟨.error hs, rfl, rfl⟩
      | ok _ m' => exact ⟨.ok _, rfl, rfl⟩

/-- **A call of the renamed subroutine.** -/
theorem renames_call :
    (Machine.call names x k m).Renames r
      (Machine.call names' (r.sub x) (k.map (Task.rename r.toNameMaps)) (m.rename r)) := by
  unfold Machine.call
  rw [m.rename_lookup r x]
  obtain ⟨s, hs, hs'⟩ | ⟨s, s', hs, hs', hstop⟩ := r.resolve_cases (r.sub_text? x)
  · rw [hs, hs']
    exact renames_invoke r k ((m.note (.callSubroutine s)).note .enterCall) s (m.subs.lookup x)
  · rw [hs, hs']
    exact ⟨.error hstop, rfl, rfl⟩

/-- **A chain of arms** does the same under its new names. -/
theorem Arms.renames_start : ∀ (arms : Arms) (m : Machine),
    (arms.start names k m).Renames r
      ((arms.rename r.toNameMaps).start names' (k.map (Task.rename r.toNameMaps)) (m.rename r))
  | .done, _ => ⟨.ok _, rfl, rfl⟩
  | .otherwise body, m => renames_enterBlock r k m body
  | .arm cond body rest, m => by
    have htest := m.sameResult_test r .ifCondition cond
    simp only [Arms.rename, Arms.start]
    generalize m.test names .ifCondition cond = res, (m.rename r).test names' .ifCondition _ = res'
      at htest
    -- The conditions come to the same boolean, so both choose the same body.
    cases htest with
    | error m' hs => exact ⟨.error hs, rfl, rfl⟩
    | ok holds m' =>
      cases holds with
      | true => exact renames_enterBlock r k m' body
      | false => exact rest.renames_start m'

/-- **A statement** does the same under its new names. -/
theorem Stmt.renames_start (s : Stmt) :
    (s.start names k m).Renames r
      ((s.rename r.toNameMaps).start names' (k.map (Task.rename r.toNameMaps)) (m.rename r)) := by
  cases s with
  | assign x e => exact renames_assign r k m x e
  | declare x e => exact renames_declareStore r k m x e
  | print e => exact renames_printValue r k m e
  | ifElse arms => exact arms.renames_start r k m
  | whileDo cond body => exact ⟨.ok _, rfl, rfl⟩
  | repeatTimes count body => exact renames_beginRepeat r k m count body
  | sub x body => exact renames_define r k m x body
  | call x => exact renames_call r k m x
  | exit => exact ⟨.ok _, rfl, rfl⟩
  | breakLoop => exact ⟨.ok _, rfl, rfl⟩

/-- **A `while`** does the same under its new names. -/
theorem renames_step_whileDo {signal signal' : Outcome Status} (hsignal : r.SameOutcome signal signal')
    (cond : Expr) (body : Block) :
    ((Task.whileDo cond body).step names signal k m).Renames r
      ((Task.whileDo (cond.rename r.toNameMaps) (renameBlock r.toNameMaps body)).step names' signal'
        (k.map (Task.rename r.toNameMaps)) (m.rename r)) := by
  cases hsignal with
  | error hs => exact ⟨.error hs, rfl, rfl⟩
  | ok status =>
    cases status with
    | ok =>
      have htest := m.sameResult_test r .whileCondition cond
      simp only [Task.step]
      generalize m.test names .whileCondition cond = res,
        (m.rename r).test names' .whileCondition _ = res' at htest
      cases htest with
      | error m' hs => exact ⟨.error hs, rfl, rfl⟩
      | ok holds m' =>
        cases holds with
        | true => exact renames_enterBlock r (.whileDo cond body :: k) m' body
        | false => exact ⟨.ok _, rfl, rfl⟩
    | «break» => exact ⟨.ok _, rfl, rfl⟩
    | exit => exact ⟨.ok _, rfl, rfl⟩

/-- **One task** does the same under its new names. -/
theorem Task.renames_step {signal signal' : Outcome Status} (hsignal : r.SameOutcome signal signal')
    (task : Task) :
    (task.step names signal k m).Renames r
      ((task.rename r.toNameMaps).step names' signal' (k.map (Task.rename r.toNameMaps))
        (m.rename r)) := by
  cases task with
  | run rest =>
    -- Only after the normal signal is a statement begun.
    cases hsignal with
    | error hs => exact ⟨.error hs, rfl, rfl⟩
    | ok status =>
      cases status with
      | ok =>
        cases rest with
        | nil => exact ⟨.ok _, rfl, rfl⟩
        | cons s rest => exact s.renames_start r (.run rest :: k) m
      | «break» => exact ⟨.ok _, rfl, rfl⟩
      | exit => exact ⟨.ok _, rfl, rfl⟩
  | leaveScope => exact ⟨hsignal, rfl, m.rename_leaveScope r⟩
  | leaveCall => exact ⟨hsignal, rfl, rfl⟩
  | whileDo cond body => exact renames_step_whileDo r k m hsignal cond body
  | repeatTimes left body =>
    -- The times that are left are the same in both.
    cases hsignal with
    | error hs => exact ⟨.error hs, rfl, rfl⟩
    | ok status =>
      cases status with
      | ok =>
        cases left with
        | zero => exact ⟨.ok _, rfl, rfl⟩
        | succ left => exact renames_enterBlock r (.repeatTimes left body :: k) m body
      | «break» => exact ⟨.ok _, rfl, rfl⟩
      | exit => exact ⟨.ok _, rfl, rfl⟩

end Step

/-! ### Runs -/

/-- **Two runs that have come equally far**: both are over, or both stand at points of which the second
is the first renamed. -/
inductive Progress.Renames (r : Renaming names names') : Progress → Progress → Prop
  | finished {result result' : Outcome Status} (m : Machine) : r.SameOutcome result result' →
      Renames r (.finished result m) (.finished result' (m.rename r))
  | running {c c' : Config} : c.Renames r c' → Renames r (.running c) (.running c')

/-- **A run of renamed tasks** takes the same steps, however far it is followed. -/
theorem Config.Renames.run {r : Renaming names names'} {c c' : Config} (h : c.Renames r c')
    (fuel : Nat) : (c.run names fuel).Renames r (c'.run names' fuel) := by
  induction fuel generalizing c c' with
  | zero =>
    obtain ⟨signal, control, m⟩ := c
    obtain ⟨signal', control', m'⟩ := c'
    obtain ⟨hsignal, rfl, rfl⟩ := h
    cases control with
    | nil => exact .finished m hsignal
    | cons task k => exact .running ⟨hsignal, rfl, rfl⟩
  | succ fuel ih =>
    obtain ⟨signal, control, m⟩ := c
    obtain ⟨signal', control', m'⟩ := c'
    obtain ⟨hsignal, rfl, rfl⟩ := h
    cases control with
    | nil => exact .finished m hsignal
    -- One step keeps the two together, and the rest is by induction.
    | cons task k => exact ih (task.renames_step r k m hsignal)

/-- The log says whether a program ended early, which has nothing to do with names. -/
theorem Machine.rename_halt (r : Renaming names names') (status : Status) (m : Machine) :
    (m.rename r).halt status = (m.halt status).rename r := by
  unfold halt
  split
  · rfl
  · rfl

/-- **A run of a renamed program**, with what is added to the log at its end. -/
theorem Machine.renames_run (r : Renaming names names') (m : Machine) (p : Program) (fuel : Nat) :
    (m.run names fuel p).Renames r
      ((m.rename r).run names' fuel (renameBlock r.toNameMaps p)) := by
  -- Both are loaded with the normal signal and nothing else to do.
  have hload : (m.load p).Renames r ((m.rename r).load (renameBlock r.toNameMaps p)) :=
    ⟨.ok _, rfl, rfl⟩
  have hrun := hload.run fuel
  unfold Machine.run
  generalize (m.load p).run names fuel = progress,
    ((m.rename r).load (renameBlock r.toNameMaps p)).run names' fuel = progress' at hrun
  cases hrun with
  | running hc => exact .running hc
  | finished m' hresult =>
    cases hresult with
    | error hs => exact .finished m' (.error hs)
    | ok status =>
      dsimp only
      rw [m'.rename_halt r status]
      exact .finished (m'.halt status) (.ok status)

/-- **The meaning of a program does not depend on the choice of names**, and variables and subroutines do
not share one space of names. For any two functions on texts that keep the variables and the subroutines
apart there is a renaming by them, and under every renaming the run of a renamed tree prints the same as
that of the tree, has the same heap, and comes to the same end or is as far from it: with the same status,
or with the same error about the renamed variable or subroutine. -/
theorem runs_of_rename (names : Interner) :
    (∀ ρ σ : String → String, Set.InjOn ρ {s | names.Holds s} → Set.InjOn σ {s | names.Holds s} →
      ∃ names', ∃ r : Renaming names names', r.varText = ρ ∧ r.subText = σ) ∧
    ∀ (names' : Interner) (r : Renaming names names') (p : Program) (printer : Printer)
      (maxCalls fuel : Nat),
      let progress := (Machine.initial printer maxCalls).run names fuel p
      let renamed := (Machine.initial printer maxCalls).run names' fuel (renameBlock r.toNameMaps p)
      renamed.machine.printer = progress.machine.printer ∧
        renamed.machine.heap = progress.machine.heap ∧
        Option.Rel r.SameOutcome progress.result? renamed.result? := by
  -- The first part is about texts alone. For the second, a run is compared with the one from the
  -- renamed start, which is the start itself.
  refine ⟨fun ρ σ hρ hσ => exists_renaming names hρ hσ, fun names' r p printer maxCalls fuel => ?_⟩
  have hrun := (Machine.initial printer maxCalls).renames_run r p fuel
  rw [Machine.rename_initial] at hrun
  dsimp only
  generalize (Machine.initial printer maxCalls).run names fuel p = progress,
    (Machine.initial printer maxCalls).run names' fuel (renameBlock r.toNameMaps p) = renamed at hrun
  cases hrun with
  | finished m hresult => exact ⟨rfl, rfl, .some hresult⟩
  -- The run is not over, so there is no result in either.
  | @running c c' hc =>
    have hmachine : c'.machine = c.machine.rename r := hc.machine
    show c'.machine.printer = c.machine.printer ∧ c'.machine.heap = c.machine.heap ∧ _
    rw [hmachine]
    exact ⟨rfl, rfl, .none⟩

end Silly
