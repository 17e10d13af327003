import Silly.Proofs.Heap.Eval
import Silly.Proofs.Heap.Order
import Silly.Proofs.Integer.Power

/-!
# Strings and lists are sequences

A string is a sequence of characters and a list is one of items. On both, `#` counts the parts, `+`
puts the parts of two together, and `@` takes one part out. Each operator has one equation for
this, said of values that carry their texts, where a character is a string itself
(`Value.Sequence`). After that, it does not matter of which kind a sequence is.

With a heap, two expressions are evaluated one after the other, and the first one has made strings
that the second one may need. They are said to have the same value if the second one comes to the
value of the first, with the same handles, in each heap that the one after the first has grown to
(`Expr.SameValue`). It is enough for this that they come to the same without a heap
(`Expr.sameValue_of_plain`), so the laws are carried over at once and no heap is followed through
them.
-/

namespace Silly

/-! ### The parts of a sequence -/

section Place

variable {α : Type} {xs : List α} {i : Int64} {n : Nat}

theorem itemAt_of_lt (hi : (n : ℤ) = i.toInt) (hn : n < xs.length) : itemAt xs i = .ok xs[n] := by
  obtain ⟨m, hm, hi', hitem⟩ | ⟨-, hout⟩ := itemAt_cases xs i
  · obtain rfl : m = n := by omega
    exact hitem
  · exact absurd (hout n hi) (Nat.not_le.mpr hn)

/-- **A place that a list does not have** is one on either side of it. -/
theorem itemAt_eq_fail_iff :
    itemAt xs i = Outcome.fail (.indexOutOfRange i xs.length) ↔
      i.toInt < 0 ∨ (xs.length : ℤ) ≤ i.toInt := by
  -- The index is that of a part or fails, and in the second case no place has this number.
  obtain ⟨n, hn, hi, hitem⟩ | ⟨hfail, hout⟩ := itemAt_cases xs i
  · rw [hitem]
    exact iff_of_false nofun (by omega)
  · refine iff_of_true hfail ?_
    by_contra hin
    have := hout i.toInt.toNat (by omega)
    omega

end Place

namespace Value

/-- **What a string or a list is made of**: its characters, each as a string, or its items. -/
inductive Sequence : Kind → List (Value String) → Value String → Prop
  | string (s : String) : Sequence .string (s.toList.map fun c => str c.toString) (str s)
  | list (vs : List (Value String)) : Sequence .list vs (list vs)

namespace Sequence

variable {k : Kind} {ps qs : List (Value String)} {v w : Value String}

/-- The parts of a string are its characters. -/
theorem string_iff : Sequence .string ps v ↔
    ∃ s : String, v = str s ∧ ps = s.toList.map fun c => str c.toString := by
  constructor
  · rintro ⟨s⟩
    exact ⟨s, rfl, rfl⟩
  · rintro ⟨s, rfl, rfl⟩
    exact string s

/-- **A sequence is given by its parts.** -/
theorem unique (hv : Sequence k ps v) (hw : Sequence k ps w) : v = w := by
  cases hv with
  | string s =>
    -- Different characters are different strings, so the texts are the same character by character.
    obtain ⟨t, rfl, ht⟩ := string_iff.mp hw
    have hchar : Function.Injective fun c : Char => (str c.toString : Value String) := by
      intro c d hcd
      simpa using hcd
    rw [String.toList_inj.mp (hchar.list_map ht)]
  | list =>
    cases hw
    rfl

/-- A character of a string has one character. -/
theorem part (hv : Sequence .string ps v) (hw : w ∈ ps) : Sequence .string [w] w := by
  obtain ⟨s, rfl, rfl⟩ := string_iff.mp hv
  obtain ⟨c, -, rfl⟩ := List.mem_map.mp hw
  exact string_iff.mpr ⟨c.toString, rfl, by simp⟩

/-! ### One equation for each operator -/

/-- **Joining** puts the parts together. -/
theorem add (hv : Sequence k ps v) (hw : Sequence k qs w) :
    ∃ r, BinaryOp.add.apply v w () = (.ok r, ()) ∧ Sequence k (ps ++ qs) r := by
  -- Both are strings or both are lists, as they are of one kind.
  cases hv with
  | string s =>
    cases hw with
    | string t =>
      refine ⟨str (s ++ t), rfl, ?_⟩
      rw [← List.map_append, ← String.toList_append]
      exact string (s ++ t)
  | list =>
    cases hw with
    | list => exact ⟨_, rfl, list (ps ++ qs)⟩

/-- **The length** is the number of parts. -/
theorem len (hv : Sequence k ps v) : UnaryOp.len.apply () v = lengthValue ps.length := by
  cases hv with
  | string s =>
    rw [List.length_map, String.length_toList]
    rfl
  | list => rfl

/-- **Indexing** takes a part. -/
theorem index (hv : Sequence k ps v) (i : Int64) :
    BinaryOp.index.apply v (.int i) () = (itemAt ps i, ()) := by
  cases hv with
  | string s =>
    -- The character is made a string after it was taken out.
    show BinaryOp.newString () ((itemAt s.toList i).map (·.toString)) = _
    rw [itemAt_map]
    cases itemAt s.toList i <;> rfl
  | list => rfl

end Sequence

end Value

/-- A length that fits comes to an integer. -/
theorem lengthValue_of_lt {σ : Type} {n : Nat} (hn : n < 2 ^ 63) :
    ∃ l : Int64, l.toInt = n ∧ (lengthValue n : Outcome (Value σ)) = .ok (.int l) := by
  -- The bound is the one that integers have.
  have hfits : Integer.Fits (n : ℤ) := Integer.fits_iff.mpr ⟨by omega, by omega⟩
  refine ⟨Int64.ofInt n, Integer.toInt_ofInt_of_fits hfits, ?_⟩
  rw [lengthValue, Integer.exactly?, if_pos hfits]
  rfl

/-! ### Expressions for sequences -/

namespace Expr

/-- The expression for the empty sequence of a kind. -/
def emptyOf : Kind → Expr
  | .list => .list []
  | _ => .str .empty

/-- The expression that makes a sequence of a kind out of one part: a part of a string is a string
already, and an item is put in a list. -/
def single : Kind → Expr → Expr
  | .list, e => .list [e]
  | _, e => e

/-- **The first parts of a sequence put together**: `e @ 0 + e @ 1 + …`, with `n` parts. -/
def rebuilt (k : Kind) (e : Expr) : Nat → Expr
  | 0 => emptyOf k
  | n + 1 => .binary .add (e.rebuilt k n) (single k (.binary .index e (.int (Int64.ofInt n))))

section Plain

variable (names : Interner) (env : Environment (Value String))

/-- **What an expression for a sequence comes to** without a heap. -/
def Denotes (e : Expr) (k : Kind) (ps : List (Value String)) : Prop :=
  ∃ v, e.eval names env () = (.ok v, ()) ∧ v.Sequence k ps

variable {names env} {e e' : Expr} {k : Kind} {ps qs : List (Value String)}

namespace Denotes

theorem var {x : Name} {v : Value String} (hx : env.lookup x = .ok v) (hv : v.Sequence k ps) :
    (Expr.var x).Denotes names env k ps :=
  ⟨v, by rw [eval, hx]; rfl, hv⟩

/-- **A sum** denotes the parts of both operands. -/
theorem add (he : e.Denotes names env k ps) (he' : e'.Denotes names env k qs) :
    (Expr.binary .add e e').Denotes names env k (ps ++ qs) := by
  obtain ⟨v, hv, hps⟩ := he
  obtain ⟨w, hw, hqs⟩ := he'
  obtain ⟨r, hr, hseq⟩ := hps.add hqs
  exact ⟨r, by simp only [eval, hv, hw, hr], hseq⟩

/-- **The length** is the number of parts, which fits. -/
theorem len (he : e.Denotes names env k ps) (hlen : ps.length < 2 ^ 63) :
    ∃ n : Int64, n.toInt = ps.length ∧
      (Expr.unary .len e).eval names env () = (.ok (.int n), ()) := by
  obtain ⟨v, hv, hps⟩ := he
  obtain ⟨n, hn, hlength⟩ := lengthValue_of_lt (σ := String) hlen
  exact ⟨n, hn, by simp only [eval, hv, hps.len, hlength]⟩

/-- **The length of two sequences joined** is the sum of their lengths, which does not overflow
before the length does. -/
theorem len_add (he : e.Denotes names env k ps) (he' : e'.Denotes names env k qs)
    (hlen : ps.length + qs.length < 2 ^ 63) : ∃ l : Int64,
      (Expr.unary .len (.binary .add e e')).eval names env () = (.ok (.int l), ()) ∧
      (Expr.binary .add (.unary .len e) (.unary .len e')).eval names env () =
        (.ok (.int l), ()) := by
  -- Three lengths, each of which is an integer, and the last one is the sum of the others.
  obtain ⟨m, hm, hlenm⟩ := he.len (by omega)
  obtain ⟨n, hn, hlenn⟩ := he'.len (by omega)
  obtain ⟨l, hl, hlenl⟩ := (he.add he').len (by rwa [List.length_append])
  have hsum : m.toInt + n.toInt = l.toInt := by
    rw [hm, hn, hl, List.length_append, Nat.cast_add]
  have hadd : Integer.add m n = .ok l := by rw [Integer.add, hsum, Integer.exactly_toInt]
  refine ⟨l, hlenl, ?_⟩
  rw [eval, hlenm]
  dsimp only
  rw [hlenn]
  show (BinaryOp.add.computed (Integer.add m n), ()) = _
  rw [hadd]
  rfl

/-- **An index** takes the part of a sequence at a place. -/
theorem index (he : e.Denotes names env k ps) (i : Int64) :
    (Expr.binary .index e (.int i)).eval names env () = (itemAt ps i, ()) := by
  obtain ⟨v, hv, hps⟩ := he
  simp only [eval, hv, hps.index]

/-- The part at a place that there is. -/
theorem index_of_lt (he : e.Denotes names env k ps) {i : Int64} {n : Nat} (hi : (n : ℤ) = i.toInt)
    (hn : n < ps.length) :
    (Expr.binary .index e (.int i)).eval names env () = (.ok ps[n], ()) := by
  rw [he.index, itemAt_of_lt hi hn]

/-- A part of a sequence is made a sequence again. -/
theorem single (he : e.Denotes names env k ps) {p : Value String} (hp : p ∈ ps)
    (he' : e'.eval names env () = (.ok p, ())) : (Expr.single k e').Denotes names env k [p] := by
  -- A character is a string of one part already, and an item is put into a list.
  obtain ⟨v, -, hps⟩ := he
  cases hps with
  | string s => exact ⟨p, he', (Value.Sequence.string s).part hp⟩
  | list =>
    refine ⟨.list [p], ?_, .list [p]⟩
    simp only [Expr.single, eval, evalItems, he']

/-- **The empty sequence** of the same kind has no parts. -/
theorem empty (hnames : names.text? .empty = some "") (he : e.Denotes names env k ps) :
    (emptyOf k).Denotes names env k [] := by
  obtain ⟨v, -, hps⟩ := he
  cases hps with
  | string =>
    refine ⟨.str "", ?_, .string ""⟩
    show BinaryOp.newString () (names.resolve .empty) = _
    rw [Interner.resolve, hnames]
    rfl
  | list => exact ⟨.list [], rfl, .list []⟩

/-- **A sequence is put together again** from its parts. -/
theorem rebuilt (hnames : names.text? .empty = some "") (he : e.Denotes names env k ps)
    (hlen : ps.length < 2 ^ 63) : ∀ {n : Nat}, n ≤ ps.length →
      (e.rebuilt k n).Denotes names env k (ps.take n)
  | 0, _ => he.empty hnames
  -- The first `n` parts are put together, and the next one is added to them.
  | n + 1, hn => by
    have hplace : (n : ℤ) = (Int64.ofInt n).toInt :=
      (Integer.toInt_ofInt_of_fits (Integer.fits_iff.mpr ⟨by omega, by omega⟩)).symm
    have hpart := he.single (List.getElem_mem hn) (he.index_of_lt hplace hn)
    rw [List.take_succ_eq_append_getElem hn]
    exact (he.rebuilt hnames hlen (Nat.le_of_succ_le hn)).add hpart

end Denotes

end Plain

/-! ### With a heap -/

/-- **Two expressions have the same value.** After the first one, the second one comes to the same
value, with the same handles, whatever strings have been made in between. -/
def SameValue (names : Interner) (env : Environment) (h : Heap) (e e' : Expr) : Prop :=
  ∃ v h₁, e.eval names env h = (.ok v, h₁) ∧
    ∀ h', h₁.Extends h' → ∃ h₂, e'.eval names env h' = (.ok v, h₂)

variable {names : Interner} {env : Environment} {h : Heap} {e e' : Expr}

/-- **Expressions that come to the same without a heap** have the same value. -/
theorem sameValue_of_plain (hv : env.Valid h) {p : Value String}
    (he : e.eval names (env.plain h) () = (.ok p, ()))
    (he' : e'.eval names (env.plain h) () = (.ok p, ())) : SameValue names env h e e' := by
  -- The first expression has a value, as it has one without a heap.
  obtain ⟨s, h₁, -, hs, -⟩ | ⟨v, h₁, hr, hplain, hh₁, hval⟩ := (e.tracks_eval names hv).cases
  · cases he.symm.trans hs
  · refine ⟨v, h₁, hr, fun h' hh' => ?_⟩
    have hgrown := hh₁.trans hh'
    have htracks := e'.tracks_eval names (hv.of_extends hgrown)
    rw [hv.plain_of_extends hgrown] at htracks
    obtain ⟨s, h₂, -, hs, -⟩ | ⟨w, h₂, hr', hplain', hh₂, hwal⟩ := htracks.cases
    · cases he'.symm.trans hs
    · -- The two values stand for the same in the last heap, so they are the same there.
      have hfirst : p = v.plain h₁ := by simpa using he.symm.trans hplain
      have hsecond : p = w.plain h₂ := by simpa using he'.symm.trans hplain'
      have hsame : v.plain h₂ = w.plain h₂ := by
        rw [hval.plain_of_extends (hh'.trans hh₂), ← hfirst, hsecond]
      rw [(hval.of_extends (hh'.trans hh₂)).eq_of_plain_eq hwal hsame]
      exact ⟨h₂, hr'⟩

/-- **Expressions that denote the same parts** have the same value. -/
theorem sameValue_of_denotes (hv : env.Valid h) {k : Kind} {ps : List (Value String)}
    (he : e.Denotes names (env.plain h) k ps) (he' : e'.Denotes names (env.plain h) k ps) :
    SameValue names env h e e' := by
  obtain ⟨v, hr, hps⟩ := he
  obtain ⟨w, hr', hps'⟩ := he'
  cases hps.unique hps'
  exact sameValue_of_plain hv hr hr'

/-- An expression fails as it does without a heap. -/
theorem eval_error_iff (hv : env.Valid h) {r : Outcome (Value String)}
    (he : e.eval names (env.plain h) () = (r, ())) (s : Stop) :
    (e.eval names env h).1 = .error s ↔ r = .error s := by
  -- The two evaluations fail together, with the same failure.
  obtain ⟨s', h₁, hr, hplain, -⟩ | ⟨v, h₁, hr, hplain, -⟩ := (e.tracks_eval names hv).cases
  · cases he.symm.trans hplain
    rw [hr, Except.error.injEq, Except.error.injEq]
  · cases he.symm.trans hplain
    rw [hr]
    exact iff_of_false nofun nofun

/-- **Strings and lists are sequences.** Let the variables `x`, `y` and `z` have values that are all
strings or all lists, with fewer than `2 ^ 63` parts in total. Then the length of `x` is the number
of its parts, the length of a sum is the sum of the lengths, and sums are associative. An index
fails just if it is negative or not less than the length, and the places of a sum are those of its
first operand and then those of its second one. A part of a string has one character. All the parts
of `x` together, added to an empty literal, are the value of `x` again, with the same handles. -/
theorem eval_sequence_laws (hv : env.Valid h) {x y z : Name} {u v w : Value}
    (hx : env.lookup x = .ok u) (hy : env.lookup y = .ok v) (hz : env.lookup z = .ok w)
    {k : Kind} {us vs ws : List (Value String)}
    (hus : (u.plain h).Sequence k us) (hvs : (v.plain h).Sequence k vs)
    (hws : (w.plain h).Sequence k ws) (hlen : us.length + vs.length + ws.length < 2 ^ 63)
    (i : Int64) :
    let X := Expr.var x
    let Y := Expr.var y
    let Z := Expr.var z
    let len := Expr.unary .len
    let add := Expr.binary .add
    let place (e : Expr) (i : Int64) := Expr.binary .index e (.int i)
    (∃ n : Int64, n.toInt = us.length ∧ SameValue names env h (len X) (.int n)) ∧
      SameValue names env h (len (add X Y)) (add (len X) (len Y)) ∧
      SameValue names env h (add (add X Y) Z) (add X (add Y Z)) ∧
      (((place X i).eval names env h).1 = Outcome.fail (.indexOutOfRange i us.length) ↔
        i.toInt < 0 ∨ (us.length : ℤ) ≤ i.toInt) ∧
      (0 ≤ i.toInt → i.toInt < us.length →
        SameValue names env h (place (add X Y) i) (place X i)) ∧
      (∀ j : Int64, j.toInt = i.toInt - us.length → 0 ≤ j.toInt → j.toInt < vs.length →
        SameValue names env h (place (add X Y) i) (place Y j)) ∧
      (k = .string → 0 ≤ i.toInt → i.toInt < us.length →
        SameValue names env h (len (place X i)) (.int 1)) ∧
      (names.text? .empty = some "" →
        ∃ h', (rebuilt k X us.length).eval names env h = (.ok u, h')) := by
  intro X Y Z len add place
  -- What the environment stands for has what the values stand for.
  have hlookup {x : Name} {v : Value} (hx : env.lookup x = .ok v) :
      (env.plain h).lookup x = .ok (v.plain h) := by
    rw [Environment.plain, Environment.map_lookup, hx]
    rfl
  -- From here on each variable denotes its parts, and the laws are about rows of parts.
  have hX : X.Denotes names (env.plain h) k us := .var (hlookup hx) hus
  have hY : Y.Denotes names (env.plain h) k vs := .var (hlookup hy) hvs
  have hZ : Z.Denotes names (env.plain h) k ws := .var (hlookup hz) hws
  refine ⟨?length, ?sum, ?assoc, ?range, fun h₀ hi => ?left, fun j hj h₀ hi => ?right,
    fun hk h₀ hi => ?part, fun hnames => ?all⟩
  case length =>
    obtain ⟨n, hn, hlength⟩ := hX.len (by omega)
    exact ⟨n, hn, sameValue_of_plain hv hlength rfl⟩
  case sum =>
    obtain ⟨l, hlength, hsum⟩ := hX.len_add hY (by omega)
    exact sameValue_of_plain hv hlength hsum
  case assoc =>
    have hright := hX.add (hY.add hZ)
    rw [← List.append_assoc] at hright
    exact sameValue_of_denotes hv ((hX.add hY).add hZ) hright
  case range =>
    rw [← itemAt_eq_fail_iff]
    exact eval_error_iff hv (hX.index i) _
  case left =>
    -- The place is one of the first operand, and of the sum as well.
    obtain ⟨n, hn⟩ := Int.eq_ofNat_of_zero_le h₀
    have hlt : n < us.length := by omega
    have hsum := (hX.add hY).index_of_lt hn.symm (by rw [List.length_append]; omega)
    rw [List.getElem_append_left hlt] at hsum
    exact sameValue_of_plain hv hsum (hX.index_of_lt hn.symm hlt)
  case right =>
    -- The place is one of the second operand, further on in the sum by the length of the first.
    obtain ⟨n, hn⟩ := Int.eq_ofNat_of_zero_le h₀
    have hlt : n < vs.length := by omega
    have hsum := (hX.add hY).index_of_lt (i := i) (n := us.length + n) (by omega)
      (by rw [List.length_append]; omega)
    rw [List.getElem_append_right (Nat.le_add_right _ _)] at hsum
    simp only [Nat.add_sub_cancel_left] at hsum
    exact sameValue_of_plain hv hsum (hY.index_of_lt hn.symm hlt)
  case part =>
    subst hk
    obtain ⟨n, hn⟩ := Int.eq_ofNat_of_zero_le h₀
    have hlt : n < us.length := by omega
    have hpart := hX.single (List.getElem_mem hlt) (hX.index_of_lt hn.symm hlt)
    obtain ⟨l, hl, hlength⟩ := hpart.len (by simp)
    obtain rfl : l = 1 := Int64.toInt_inj.mp hl
    exact sameValue_of_plain hv hlength rfl
  case all =>
    -- All parts put together denote what the variable denotes.
    have hall := hX.rebuilt hnames (by omega) le_rfl
    rw [List.take_length] at hall
    obtain ⟨v, h₁, hfirst, hagain⟩ := sameValue_of_denotes hv hX hall
    -- The variable leaves the heap as it is, so the value is found in this very heap.
    have hvar : X.eval names env h = (.ok u, h) := by
      rw [eval, hx]
      rfl
    cases hvar.symm.trans hfirst
    exact hagain h (.refl h)

/-- Two strings with characters of up to three bytes, and an empty one. A place that the first one
does not have is in the second one when they are joined, and the first one is put together again
under its own handle. -/
theorem eval_sequence_laws_multibyte :
    let names := Interner.initial
    let heap := (((Heap.empty.intern "日né").2.intern "é€").2.intern "").2
    let x : Name := ⟨0⟩
    let y : Name := ⟨1⟩
    let z : Name := ⟨2⟩
    let env : Environment :=
      ⟨#[⟨[(x, some (.str ⟨0⟩)), (y, some (.str ⟨1⟩)), (z, some (.str ⟨2⟩))], none⟩],
        #[FrameId.global]⟩
    let place (e : Expr) (i : Int64) := Expr.binary .index e (.int i)
    ((place (.var x) 4).eval names env heap).1 = Outcome.fail (.indexOutOfRange 4 3) ∧
      SameValue names env heap (place (.binary .add (.var x) (.var y)) 4) (place (.var y) 1) ∧
      ∃ h', (rebuilt .string (.var x) 3).eval names env heap = (.ok (.str ⟨0⟩), h') := by
  intro names heap x y z env place
  have hnames : names.text? .empty = some "" := by decide +kernel
  have hread : heap.read ⟨0⟩ = "日né" ∧ heap.read ⟨1⟩ = "é€" ∧ heap.read ⟨2⟩ = "" := by
    decide +kernel
  have hsome : ∀ i < 3, (heap.text? ⟨i⟩).isSome := by decide +kernel
  have hvalid : env.Valid heap := by
    intro f hf n v hv
    obtain rfl := Array.mem_singleton.mp hf
    simp only [List.mem_cons, List.not_mem_nil, or_false, Prod.mk.injEq, Option.some.injEq] at hv
    obtain ⟨-, rfl⟩ | ⟨-, rfl⟩ | ⟨-, rfl⟩ := hv
    exacts [hsome 0 (by decide), hsome 1 (by decide), hsome 2 (by decide)]
  have hseq (i : Nat) (s : String) (hi : heap.read ⟨i⟩ = s) :
      ((Value.str ⟨i⟩ : Value).plain heap).Sequence .string
        (s.toList.map fun c => .str c.toString) := by
    rw [Value.plain_str, hi]
    exact .string s
  obtain ⟨-, -, -, hrange, -, hright, -, hall⟩ := eval_sequence_laws hvalid
    (x := x) (y := y) (z := z) rfl rfl rfl (hseq 0 _ hread.1) (hseq 1 _ hread.2.1)
    (hseq 2 _ hread.2.2) (by decide) 4
  exact ⟨hrange.mpr (.inr (by decide)), hright 1 (by decide) (by decide) (by decide), hall hnames⟩

end Expr

end Silly
