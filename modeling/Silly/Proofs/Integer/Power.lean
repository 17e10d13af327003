import Mathlib.Algebra.Order.Field.Power
import Mathlib.Data.Rat.Floor
import Mathlib.Tactic.Linarith
import Silly.Machine.Eval

/-!
# Powers are exact

A power is computed by squaring, and each product on the way has to fit into 64 bits. So it is not
plain that the outcome is decided by the power alone. Two things could go wrong: a product on the way
might not fit although the power does, and the range is not the same on both sides of zero, so that
a product that is too large might come back into range with another sign.

Neither happens (`squaring_eq`). A product that has no place is a factor of the power, and what has no
place has none when it grows (`not_fits_mul`). The one integer that has a place only with a minus
sign is `2 ^ 63`, and it is no square (`mul_self_ne`), so a square that has no place has none with
either sign (`not_fits_mul_square`).

What a power is to come to is said with rational numbers. `a ^ b` is a rational power, whatever the
sign of `b`, and the result is the integer next to it on the side of zero (`towardZero`).
-/

namespace Silly

/-- **Truncation**: the integer next to a rational number on the side of zero. -/
def towardZero (q : ℚ) : ℤ := if 0 ≤ q then ⌊q⌋ else ⌈q⌉

theorem towardZero_intCast (n : ℤ) : towardZero n = n := by
  rw [towardZero, Int.floor_intCast, Int.ceil_intCast, ite_self]

/-- What is less than one is truncated to zero. -/
theorem towardZero_of_abs_lt_one {q : ℚ} (h : |q| < 1) : towardZero q = 0 := by
  obtain ⟨hlo, hhi⟩ := abs_lt.mp h
  rw [towardZero]
  split
  · next hq => exact Int.floor_eq_zero_iff.mpr ⟨hq, hhi⟩
  · next hq => exact Int.ceil_eq_zero_iff.mpr ⟨hlo, (not_le.mp hq).le⟩

namespace Integer

/-! ### What has a place -/

theorem fits_iff {n : ℤ} : Fits n ↔ -2 ^ 63 ≤ n ∧ n < 2 ^ 63 := by
  have hmin : Int64.minValue.toInt = -2 ^ 63 := by decide
  have hmax : Int64.maxValue.toInt = 2 ^ 63 - 1 := by decide
  rw [Fits, hmin, hmax, Int.le_sub_one_iff]

theorem not_fits_iff {n : ℤ} : ¬ Fits n ↔ n < -2 ^ 63 ∨ 2 ^ 63 ≤ n := by
  rw [fits_iff, not_and_or, not_le, not_lt]

/-- **Back into range** or not: the two outcomes. -/
theorem exactly_cases (n : ℤ) :
    (∃ r, exactly n = .ok r ∧ r.toInt = n) ∨ (exactly n = .error .overflow ∧ ¬ Fits n) := by
  unfold exactly exactly?
  by_cases hn : Fits n
  · left
    rw [if_pos hn]
    exact ⟨Int64.ofInt n, rfl, toInt_ofInt_of_fits hn⟩
  · right
    rw [if_neg hn]
    exact ⟨rfl, hn⟩

theorem exactly_of_not_fits {n : ℤ} (hn : ¬ Fits n) : exactly n = .error .overflow := by
  obtain ⟨r, -, rfl⟩ | ⟨h, -⟩ := exactly_cases n
  · exact absurd (fits_toInt r) hn
  · exact h

theorem exactly_toInt (a : Int64) : exactly a.toInt = .ok a := by
  rw [exactly, exactly?_toInt]

/-! ### What has no place has none when it grows -/

/-- **What has no place** has none when it is multiplied. -/
theorem not_fits_mul {n k : ℤ} (hn : ¬ Fits n) (hk : 1 ≤ k) : ¬ Fits (n * k) := by
  rw [not_fits_iff] at hn ⊢
  obtain hn | hn := hn
  · left
    nlinarith
  · right
    nlinarith

/-- **The edge is no square.** -/
theorem mul_self_ne (b : ℤ) : b * b ≠ 2 ^ 63 := by
  intro h
  have hsquare : b.natAbs * b.natAbs = 2 ^ 63 := by
    rw [← Int.natAbs_mul, h]
    rfl
  -- The two squares around the edge are those of this number and of the next one.
  obtain hlt | hle := Nat.lt_or_ge 3037000499 b.natAbs
  · have hlarge := Nat.mul_le_mul hlt hlt
    omega
  · have hsmall := Nat.mul_le_mul hle hle
    omega

/-- A square that has no place has none with a minus sign either. -/
theorem not_fits_mul_square {n b : ℤ} (hb : ¬ Fits (b * b)) (hn : n ≠ 0) :
    ¬ Fits (n * (b * b)) := by
  -- With a minus sign the square would have to be the edge itself.
  obtain hneg | hpos := lt_or_gt_of_ne hn
  · have hsquare : 2 ^ 63 < b * b := by
      have hne := mul_self_ne b
      have hnonneg := mul_self_nonneg b
      rw [not_fits_iff] at hb
      omega
    rw [not_fits_iff]
    left
    nlinarith
  · rw [mul_comm]
    exact not_fits_mul hb hpos

/-! ### Squaring -/

/-- The power when the exponent is halved: an odd one leaves one factor behind. -/
theorem mul_pow_halved (n b : ℤ) (e : ℕ) :
    n * b ^ e = (if e % 2 = 1 then n * b else n) * (b * b) ^ (e / 2) := by
  calc n * b ^ e
    _ = n * (b ^ (e % 2) * (b * b) ^ (e / 2)) := by
        rw [← pow_two, ← pow_mul, ← pow_add, Nat.mod_add_div]
    _ = (if e % 2 = 1 then n * b else n) * (b * b) ^ (e / 2) := by
        -- Half of an even exponent is exact, and half of an odd one leaves one factor.
        obtain he | he := Nat.mod_two_eq_zero_or_one e
        · rw [he, pow_zero, one_mul, if_neg Nat.zero_ne_one]
        · rw [he, pow_one, if_pos rfl, mul_assoc]

/-- **Squaring gives the power exactly**, or says that the power does not fit. -/
theorem squaring_eq {acc base : Int64} {e : ℕ} (hacc : acc.toInt ≠ 0) (hbase : base.toInt ≠ 0) :
    squaring acc base e = exactly (acc.toInt * base.toInt ^ e) := by
  -- By the recursion. No factor is ever zero, so none can bring what is too large back into range.
  induction e using Nat.strong_induction_on generalizing acc base with
  | _ e ih =>
    rw [squaring]
    split
    · next he => rw [he, pow_zero, mul_one, exactly_toInt]
    · next hzero =>
      split
      · next he => rw [he, pow_one, mul]
      · next hone =>
        have hhalf : 1 ≤ e / 2 := by omega
        have hsquare : base.toInt * base.toInt ≠ 0 := mul_ne_zero hbase hbase
        have hpos : 1 ≤ (base.toInt * base.toInt) ^ (e / 2) :=
          one_le_pow₀ (lt_of_le_of_ne (mul_self_nonneg _) hsquare.symm)
        rw [mul_pow_halved]
        -- What the accumulator becomes is a product or what it was.
        have hfirst : (if e % 2 = 1 then mul acc base else .ok acc) =
            exactly (if e % 2 = 1 then acc.toInt * base.toInt else acc.toInt) := by
          split
          · rfl
          · rw [exactly_toInt]
        have hfactor : (if e % 2 = 1 then acc.toInt * base.toInt else acc.toInt) ≠ 0 := by
          split
          · exact mul_ne_zero hacc hbase
          · exact hacc
        rw [hfirst]
        generalize (if e % 2 = 1 then acc.toInt * base.toInt else acc.toInt) = n at hfactor ⊢
        obtain ⟨acc', hn, rfl⟩ | ⟨hn, hfits⟩ := exactly_cases n
        -- The accumulator has a place, and the square of the base has one or has none.
        · rw [hn, mul]
          obtain ⟨base', hb, hb'⟩ | ⟨hb, hfits⟩ := exactly_cases (base.toInt * base.toInt)
          · rw [hb, ← hb']
            exact ih (e / 2) (by omega) hfactor (hb' ▸ hsquare)
          · -- The square is still to be a factor, at least once.
            rw [hb]
            obtain ⟨k, hk⟩ : ∃ k, e / 2 = k + 1 := ⟨e / 2 - 1, by omega⟩
            have hrest : acc'.toInt * (base.toInt * base.toInt) ^ k ≠ 0 :=
              mul_ne_zero hfactor (pow_ne_zero k hsquare)
            have hover := not_fits_mul_square hfits hrest
            rw [hk, pow_succ, ← mul_assoc, exactly_of_not_fits hover]
        -- The accumulator has no place, and it is still to be multiplied by a power that is at least
        -- one.
        · rw [hn, exactly_of_not_fits (not_fits_mul hfits hpos)]

/-! ### Powers -/

section Power

variable {a b : ℤ}

theorem two_le_abs (h₀ : a ≠ 0) (h₁ : a ≠ 1) (hm : a ≠ -1) : 2 ≤ |a| := by
  rw [le_abs]
  omega

/-- **Growth**: with a base beyond `1` and `-1`, a power with a large exponent does not fit. -/
theorem not_fits_pow {e : ℕ} (ha : 2 ≤ |a|) (he : 64 ≤ e) : ¬ Fits (a ^ e) := by
  have hgrow : (2 : ℤ) ^ 64 ≤ |a ^ e| := by
    -- Such a power is at least that power of two, which no place is large enough for.
    calc (2 : ℤ) ^ 64
      _ ≤ 2 ^ e := pow_le_pow_right₀ one_le_two he
      _ ≤ |a| ^ e := pow_le_pow_left₀ zero_le_two ha e
      _ = |a ^ e| := (abs_pow a e).symm
  rw [not_fits_iff]
  rw [le_abs] at hgrow
  omega

/-- An exponent of more than 32 bits makes no exception. -/
theorem natPower_eq {a : Int64} {e : ℕ} (ha : 2 ≤ |a.toInt|) :
    natPower a e = exactly (a.toInt ^ e) := by
  have hone : (1 : Int64).toInt = 1 := by decide
  rw [natPower]
  -- An exponent of 32 bits is computed by squaring, and a larger one is refused at once.
  split
  · have hzero : a.toInt ≠ 0 := by
      intro h
      rw [h, abs_zero] at ha
      omega
    rw [squaring_eq (by decide) hzero, hone, one_mul]
  · next he =>
    have hlarge : 64 ≤ e := le_trans (by decide) (not_lt.mp he)
    rw [exactly_of_not_fits (not_fits_pow ha hlarge)]

/-- A power of `-1` is `1` or `-1`, by the parity of the exponent. -/
theorem neg_one_zpow_eq (b : ℤ) : (-1 : ℚ) ^ b = ((if b % 2 = 0 then 1 else -1 : ℤ) : ℚ) := by
  split
  · next hb => rw [(Int.even_iff.mpr hb).neg_one_zpow, Int.cast_one]
  · next hb =>
    rw [(Int.odd_iff.mpr (by omega)).neg_one_zpow, Int.cast_neg, Int.cast_one]

/-- The reciprocal of a power is less than one, if the base is beyond `1` and `-1`. -/
theorem towardZero_zpow_of_neg (ha : 2 ≤ |a|) (hb : b < 0) : towardZero ((a : ℚ) ^ b) = 0 := by
  refine towardZero_of_abs_lt_one ?_
  have hbase : (1 : ℚ) < |(a : ℚ)| := by exact_mod_cast ha
  rw [abs_zpow]
  exact zpow_lt_one_of_neg₀ hbase hb

theorem towardZero_zpow_natCast (a : ℤ) (e : ℕ) : towardZero ((a : ℚ) ^ (e : ℤ)) = a ^ e := by
  rw [zpow_natCast, ← Int.cast_pow, towardZero_intCast]

end Power

/-! The four kinds of bases. -/

section Bases

theorem toInt_zero : (0 : Int64).toInt = 0 := by decide

theorem toInt_one : (1 : Int64).toInt = 1 := by decide

theorem toInt_neg_one : (-1 : Int64).toInt = -1 := by decide

theorem lt_zero_iff {b : Int64} : b < 0 ↔ b.toInt < 0 := by
  rw [Int64.lt_iff_toInt_lt, toInt_zero]

/-- An exponent that is not negative. -/
theorem exists_toInt_eq {b : Int64} (hb : ¬ b < 0) : ∃ e : ℕ, b.toInt = e :=
  Int.eq_ofNat_of_zero_le (not_lt.mp (lt_zero_iff.not.mp hb))

variable {a b : Int64}

/-- **Powers of zero** with an exponent that is not negative. -/
theorem power_of_zero (hb : ¬ b < 0) :
    power 0 b = exactly (towardZero (((0 : Int64).toInt : ℚ) ^ b.toInt)) := by
  obtain ⟨e, he⟩ := exists_toInt_eq hb
  rw [power, if_pos rfl, if_neg hb, he, towardZero_zpow_natCast, toInt_zero]
  -- The empty product is one, and every other power of zero is zero.
  by_cases hb₀ : b = 0
  · obtain rfl : e = 0 := by
      rw [hb₀, toInt_zero] at he
      exact_mod_cast he.symm
    rw [if_pos hb₀, pow_zero, ← toInt_one, exactly_toInt]
  · have he₀ : e ≠ 0 := by
      rintro rfl
      exact hb₀ (Int64.toInt_inj.mp (he.trans toInt_zero.symm))
    rw [if_neg hb₀, zero_pow he₀, ← toInt_zero, exactly_toInt]

/-- **Powers of one.** -/
theorem power_of_one (b : Int64) :
    power 1 b = exactly (towardZero (((1 : Int64).toInt : ℚ) ^ b.toInt)) := by
  rw [power, if_neg (by decide), if_pos rfl, toInt_one, Int.cast_one, one_zpow, ← Int.cast_one,
    towardZero_intCast, ← toInt_one, exactly_toInt]

/-- **Powers of minus one**, with any exponent. -/
theorem power_of_neg_one (b : Int64) :
    power (-1) b = exactly (towardZero (((-1 : Int64).toInt : ℚ) ^ b.toInt)) := by
  rw [power, if_neg (by decide), if_neg (by decide), if_pos rfl, toInt_neg_one, Int.cast_neg,
    Int.cast_one, neg_one_zpow_eq, towardZero_intCast]
  split
  · rw [← toInt_one, exactly_toInt]
  · rw [← toInt_neg_one, exactly_toInt]

/-- **Powers of all other bases.** -/
theorem power_of_two_le (ha : 2 ≤ |a.toInt|) (h₀ : a ≠ 0) (h₁ : a ≠ 1) (hm : a ≠ -1) :
    power a b = exactly (towardZero ((a.toInt : ℚ) ^ b.toInt)) := by
  rw [power, if_neg h₀, if_neg h₁, if_neg hm]
  -- A negative exponent gives less than one, and any other one is computed.
  split
  · next hb =>
    rw [towardZero_zpow_of_neg ha (lt_zero_iff.mp hb), ← toInt_zero, exactly_toInt]
  · next hb =>
    obtain ⟨e, he⟩ := exists_toInt_eq hb
    rw [he, towardZero_zpow_natCast, natPower_eq ha, Int.toNat_natCast]

end Bases

/-- Zero with a negative exponent is a division by zero. -/
theorem power_eq_divisionByZero {a b : Int64} (h : a = 0 ∧ b < 0) :
    power a b = .error .divisionByZero := by
  rw [power, if_pos h.1, if_pos h.2]

/-- **The power is the truncated rational power**, brought back into range. -/
theorem power_eq {a b : Int64} (h : ¬ (a = 0 ∧ b < 0)) :
    power a b = exactly (towardZero ((a.toInt : ℚ) ^ b.toInt)) := by
  -- By the base, of which three are special.
  by_cases h₀ : a = 0
  · subst h₀
    exact power_of_zero fun hb => h ⟨rfl, hb⟩
  · by_cases h₁ : a = 1
    · subst h₁
      exact power_of_one b
    · by_cases hm : a = -1
      · subst hm
        exact power_of_neg_one b
      · refine power_of_two_le (two_le_abs ?_ ?_ ?_) h₀ h₁ hm
        · exact fun ha => h₀ (Int64.toInt_inj.mp (ha.trans toInt_zero.symm))
        · exact fun ha => h₁ (Int64.toInt_inj.mp (ha.trans toInt_one.symm))
        · exact fun ha => hm (Int64.toInt_inj.mp (ha.trans toInt_neg_one.symm))

end Integer

variable {σ H : Type} [StringStore σ H]

/-- **Evaluating a power is exact.** It is a division by zero just where zero has a negative exponent.
Everywhere else it comes to the truncated rational power if that has 64 bits, and is an overflow just
where it has not. Strings are not touched. -/
theorem eval_power_exact (names : Interner) (env : Environment (Value σ)) (h : H) (a b : Int64) :
    let outcome := (Expr.binary .pow (.int a) (.int b)).eval names env h
    let r := towardZero ((a.toInt : ℚ) ^ b.toInt)
    outcome.2 = h ∧
      (outcome.1 = Outcome.fail (.divisionByZero .pow) ↔ a = 0 ∧ b < 0) ∧
      (¬ (a = 0 ∧ b < 0) →
        (∀ n, outcome.1 = .ok (.int n) ↔ n.toInt = r) ∧
        (-2 ^ 63 ≤ r ∧ r < 2 ^ 63 → ∃ n, outcome.1 = .ok (.int n) ∧ n.toInt = r) ∧
        (outcome.1 = Outcome.fail (.integerOverflow (.binary .pow)) ↔
          ¬ (-2 ^ 63 ≤ r ∧ r < 2 ^ 63))) := by
  intro outcome r
  have houtcome : outcome = (BinaryOp.pow.computed (Integer.power a b), h) := rfl
  rw [houtcome]
  refine ⟨rfl, ?_⟩
  -- A division by zero is no power, and everything else is one.
  by_cases hzero : a = 0 ∧ b < 0
  · rw [Integer.power_eq_divisionByZero hzero]
    exact ⟨iff_of_true rfl hzero, fun hne => absurd hzero hne⟩
  · rw [Integer.power_eq hzero]
    -- The rest is said of the one integer `r`, which has a place or has none.
    obtain ⟨n, hn, hnr⟩ | ⟨hn, hfits⟩ := Integer.exactly_cases r
    · have hr : -2 ^ 63 ≤ r ∧ r < 2 ^ 63 := Integer.fits_iff.mp (hnr ▸ Integer.fits_toInt n)
      rw [hn]
      refine ⟨iff_of_false (by simp [BinaryOp.computed, Outcome.fail]) hzero, fun _ => ⟨?_, ?_, ?_⟩⟩
      · intro m
        simp only [BinaryOp.computed, Except.ok.injEq, Value.int.injEq]
        rw [← hnr, Int64.toInt_inj, eq_comm]
      · exact fun _ => ⟨n, rfl, hnr⟩
      · exact iff_of_false (by simp [BinaryOp.computed, Outcome.fail]) (not_not_intro hr)
    · have hr : ¬ (-2 ^ 63 ≤ r ∧ r < 2 ^ 63) := Integer.fits_iff.not.mp hfits
      rw [hn]
      refine ⟨iff_of_false (by simp [BinaryOp.computed, ArithmeticError.at, Outcome.fail]) hzero,
        fun _ => ⟨?_, fun hr' => absurd hr' hr, iff_of_true rfl hr⟩⟩
      intro m
      refine iff_of_false (by simp [BinaryOp.computed, Outcome.fail]) ?_
      exact fun hm => hfits (hm ▸ Integer.fits_toInt m)

/-- The least integer is the 63rd power of `-2`, although its absolute value does not fit. -/
theorem eval_power_exact_least :
    let outcome := (Expr.binary .pow (.int (-2)) (.int 63)).eval Interner.initial
      Environment.initial Heap.empty
    ∃ n, outcome.1 = .ok (.int n) ∧ n = Int64.minValue := by
  intro outcome
  have hr : towardZero (((-2 : Int64).toInt : ℚ) ^ (63 : Int64).toInt) = -2 ^ 63 := by
    have hb : (63 : Int64).toInt = (63 : ℕ) := by decide
    have ha : (-2 : Int64).toInt = -2 := by decide
    rw [hb, Integer.towardZero_zpow_natCast, ha]
    norm_num
  have hexact := (eval_power_exact Interner.initial Environment.initial Heap.empty (-2) 63).2.2
    (by decide)
  rw [hr] at hexact
  obtain ⟨n, hn, hval⟩ := hexact.2.1 (by norm_num)
  exact ⟨n, hn, Int64.toInt_inj.mp (hval.trans (by decide))⟩

end Silly
