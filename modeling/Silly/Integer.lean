/-!
# Integers

The integers of the language are signed and have 64 bits, and no operation on them ever wraps.
Each operation is the mathematical one, carried out on unbounded integers and then brought back
into range by `Integer.exactly`, which fails when the result has no place there. A power is made of
products, each of which is brought back into range before the next one.

Division truncates toward zero, and the remainder has the sign of the dividend. A power with a
negative exponent is the truncated reciprocal. That is zero unless the base is `1` or `-1`, and
does not exist when the base is zero.
-/

namespace Silly

/-- Why an operation on integers has no result. -/
inductive ArithmeticError
  | divisionByZero
  | overflow
  deriving DecidableEq

namespace Integer

/-- Whether an integer has a place in 64 signed bits. -/
def Fits (n : Int) : Prop := Int64.minValue.toInt ≤ n ∧ n ≤ Int64.maxValue.toInt

instance (n : Int) : Decidable (Fits n) := inferInstanceAs (Decidable (_ ∧ _))

/-- **Back into range.** The integer `n` in 64 bits, if it fits. -/
def exactly? (n : Int) : Option Int64 := if Fits n then some (Int64.ofInt n) else none

/-- The integer `n` in 64 bits, or an overflow. -/
def exactly (n : Int) : Except ArithmeticError Int64 :=
  match exactly? n with
  | some r => .ok r
  | none => .error .overflow

theorem fits_toInt (a : Int64) : Fits a.toInt := ⟨a.minValue_le_toInt, a.toInt_le⟩

theorem toInt_ofInt_of_fits {n : Int} (h : Fits n) : (Int64.ofInt n).toInt = n :=
  Int64.toInt_ofInt_of_le h.1 (Int.lt_add_one_of_le h.2)

theorem exactly?_toInt (a : Int64) : exactly? a.toInt = some a := by
  simp [exactly?, fits_toInt a]

/-- An integer that is brought into range keeps its value. -/
theorem exactly?_eq_some_iff {n : Int} {r : Int64} : exactly? n = some r ↔ r.toInt = n := by
  constructor
  · intro h
    unfold exactly? at h
    split at h
    · rename_i hn
      cases h
      exact toInt_ofInt_of_fits hn
    · cases h
  · rintro rfl
    exact exactly?_toInt r

/-- The sum. -/
def add (a b : Int64) : Except ArithmeticError Int64 := exactly (a.toInt + b.toInt)

/-- The product. -/
def mul (a b : Int64) : Except ArithmeticError Int64 := exactly (a.toInt * b.toInt)

/-- The quotient, truncated toward zero. -/
def quotient (a b : Int64) : Except ArithmeticError Int64 :=
  if b = 0 then .error .divisionByZero else exactly (a.toInt.tdiv b.toInt)

/-- The remainder that belongs to the quotient: there is one only where the quotient exists. -/
def remainder (a b : Int64) : Except ArithmeticError Int64 :=
  match quotient a b with
  | .error e => .error e
  | .ok _ => exactly (a.toInt.tmod b.toInt)

/-- **A power by squaring**: the product of `acc` and the `e`-th power of `base`, where each product
on the way has to fit. The base is squared only while there is more of the exponent to come. -/
def squaring (acc base : Int64) (e : Nat) : Except ArithmeticError Int64 :=
  if e = 0 then .ok acc
  else if e = 1 then mul acc base
  else
    match if e % 2 = 1 then mul acc base else .ok acc, mul base base with
    | .ok acc, .ok base => squaring acc base (e / 2)
    | .error x, _ | .ok _, .error x => .error x
termination_by e

/-- The power with an exponent that is not negative. An exponent that needs more than 32 bits is an
overflow, whatever the base. -/
def natPower (a : Int64) (e : Nat) : Except ArithmeticError Int64 :=
  if e < UInt32.size then squaring 1 a e else .error .overflow

/-- **The power**, truncated toward zero. -/
def power (a e : Int64) : Except ArithmeticError Int64 :=
  if a = 0 then
    if e < 0 then .error .divisionByZero else .ok (if e = 0 then 1 else 0)
  else if a = 1 then .ok 1
  else if a = -1 then .ok (if e.toInt % 2 = 0 then 1 else -1)
  else if e < 0 then .ok 0
  else natPower a e.toInt.toNat

/-- The decimal text of an integer: a minus sign if it is negative, and no leading zero. -/
def text (a : Int64) : String := toString a.toInt

end Integer

end Silly
