import Silly.Proofs.Integer.Power

/-!
# Sums, products, quotients and remainders are exact

A sum and a product come to what they are for unbounded integers, or they do not fit. That is how they
are computed (`BinaryOp.exactly_computed`). A quotient and a remainder are computed one without the
other, and have to belong together: the dividend is the product of the divisor and the quotient, plus
the remainder, which is less than the divisor and has the sign of the dividend.

The range is not the same on both sides of zero, so there is one pair whose quotient does not fit
(`Integer.fits_tdiv_iff`). Its remainder is zero and would fit. It is not given either, so that there is
a remainder just where there is a quotient (`Integer.division_overflow`).

What a quotient is to be is said with rational numbers, as for powers: it is the integer next to the
rational quotient on the side of zero (`towardZero_div`).
-/

namespace Silly

/-! ### Truncated quotients -/

/-- Truncation goes toward zero from both sides. -/
theorem towardZero_neg (q : ℚ) : towardZero (-q) = -towardZero q := by
  obtain hq | rfl | hq := lt_trichotomy q 0
  · rw [towardZero, towardZero, if_pos (by linarith), if_neg (by linarith), Int.floor_neg]
  · rw [neg_zero, towardZero, if_pos le_rfl, Int.floor_zero, neg_zero]
  · rw [towardZero, towardZero, if_neg (by linarith), if_pos hq.le, Int.ceil_neg]

theorem towardZero_natCast_div (a b : ℕ) : towardZero ((a : ℚ) / b) = (a : ℤ).tdiv b := by
  rw [towardZero, if_pos (by positivity), ← Int.cast_natCast a, Rat.floor_intCast_div_natCast,
    Int.tdiv_eq_ediv_of_nonneg (Int.natCast_nonneg a)]

/-- **The truncated quotient** of two integers is that of the rational numbers. -/
theorem towardZero_div (a b : ℤ) : towardZero ((a : ℚ) / b) = a.tdiv b := by
  -- Either sign can be drawn out on both sides.
  obtain ⟨m, rfl | rfl⟩ := a.eq_nat_or_neg
  all_goals obtain ⟨n, rfl | rfl⟩ := b.eq_nat_or_neg
  all_goals simp only [Int.cast_neg, Int.cast_natCast, neg_div, div_neg, towardZero_neg,
    Int.neg_tdiv, Int.tdiv_neg, towardZero_natCast_div]

namespace Integer

/-! ### What fits -/

section Fits

variable {a b : ℤ}

/-- **A quotient fits**, but for that of the least integer by `-1`. -/
theorem fits_tdiv_iff (ha : Fits a) (hb : b ≠ 0) :
    Fits (a.tdiv b) ↔ ¬ (a = -2 ^ 63 ∧ b = -1) := by
  have habs : (a.tdiv b).natAbs = a.natAbs / b.natAbs := Int.natAbs_tdiv a b
  rw [fits_iff] at ha ⊢
  -- By the divisor: one, minus one, or at least two in absolute value.
  obtain rfl | rfl | hlarge : b = 1 ∨ b = -1 ∨ 2 ≤ b.natAbs := by omega
  · rw [Int.tdiv_one]
    omega
  · rw [Int.tdiv_neg, Int.tdiv_one]
    omega
  · -- A larger divisor at least halves the dividend.
    have hhalf : a.natAbs / b.natAbs ≤ a.natAbs / 2 := Nat.div_le_div_left hlarge (by decide)
    omega

/-- A remainder is less than the divisor. -/
theorem natAbs_tmod_lt (a : ℤ) (hb : b ≠ 0) : (a.tmod b).natAbs < b.natAbs := by
  rw [Int.natAbs_tmod]
  exact Nat.mod_lt _ (Int.natAbs_pos.mpr hb)

/-- So a remainder fits wherever the divisor does. -/
theorem fits_tmod (a : ℤ) (hb : Fits b) (hzero : b ≠ 0) : Fits (a.tmod b) := by
  have hlt := natAbs_tmod_lt a hzero
  rw [fits_iff] at hb ⊢
  omega

/-- A remainder has the sign of the dividend. -/
theorem sign_tmod_of_ne_zero (h : a.tmod b ≠ 0) : (a.tmod b).sign = a.sign := by
  have hsign := Int.sign_tmod a b
  split at hsign
  · exact absurd (Int.sign_eq_zero_iff_zero.mp hsign) h
  · exact hsign

end Fits

/-! ### Quotients and remainders -/

section Division

variable {a b : Int64}

theorem toInt_ne_zero (hb : b ≠ 0) : b.toInt ≠ 0 :=
  fun h => hb (Int64.toInt_inj.mp (h.trans toInt_zero.symm))

/-- The one quotient of integers with 64 bits that does not fit. -/
theorem fits_quotient_iff (hb : b ≠ 0) :
    Fits (a.toInt.tdiv b.toInt) ↔ ¬ (a = Int64.minValue ∧ b = -1) := by
  have hmin : Int64.minValue.toInt = -2 ^ 63 := by decide
  rw [fits_tdiv_iff (fits_toInt a) (toInt_ne_zero hb), ← hmin, ← toInt_neg_one, Int64.toInt_inj,
    Int64.toInt_inj]

/-- **The quotient that does not fit**, and no remainder. -/
theorem division_overflow (hb : b ≠ 0) (hedge : a = Int64.minValue ∧ b = -1) :
    quotient a b = .error .overflow ∧ remainder a b = .error .overflow := by
  have hquotient : quotient a b = .error .overflow := by
    rw [quotient, if_neg hb, exactly_of_not_fits ((fits_quotient_iff hb).not_left.mpr hedge)]
  refine ⟨hquotient, ?_⟩
  rw [remainder, hquotient]

/-- **Division**: everywhere else there are a quotient and a remainder, the truncated ones. -/
theorem division_ok (hb : b ≠ 0) (hedge : ¬ (a = Int64.minValue ∧ b = -1)) :
    ∃ q r, quotient a b = .ok q ∧ remainder a b = .ok r ∧ q.toInt = a.toInt.tdiv b.toInt ∧
      r.toInt = a.toInt.tmod b.toInt := by
  -- The quotient fits, and so does the remainder, which is less than the divisor.
  obtain ⟨q, hq, hqval⟩ | ⟨-, hfits⟩ := exactly_cases (a.toInt.tdiv b.toInt)
  · obtain ⟨r, hr, hrval⟩ | ⟨-, hfits⟩ := exactly_cases (a.toInt.tmod b.toInt)
    · have hquotient : quotient a b = .ok q := by rw [quotient, if_neg hb, hq]
      refine ⟨q, r, hquotient, ?_, hqval, hrval⟩
      rw [remainder, hquotient, hr]
    · exact absurd (fits_tmod _ (fits_toInt b) (toInt_ne_zero hb)) hfits
  · exact absurd ((fits_quotient_iff hb).mpr hedge) hfits

end Division

end Integer

/-! ### Evaluation -/

variable {σ H : Type} [StringStore σ H]

/-- **An outcome that is exactly `n`**: the integer `n` if it has a place in 64 signed bits, and an
overflow of the operator if it has none. -/
structure BinaryOp.Exactly (op : BinaryOp) (n : ℤ) (r : Outcome (Value σ)) : Prop where
  value : -2 ^ 63 ≤ n ∧ n < 2 ^ 63 → ∃ m : Int64, m.toInt = n ∧ r = .ok (.int m)
  overflow : ¬ (-2 ^ 63 ≤ n ∧ n < 2 ^ 63) → r = Outcome.fail (.integerOverflow (.binary op))

omit [StringStore σ H] in
/-- What is brought back into range is exact. -/
theorem BinaryOp.exactly_computed (op : BinaryOp) (n : ℤ) :
    op.Exactly n (op.computed (Integer.exactly n) : Outcome (Value σ)) := by
  -- The number fits and comes back as itself, or it does not and is an overflow.
  obtain ⟨m, hm, rfl⟩ | ⟨hn, hfits⟩ := Integer.exactly_cases n
  · rw [hm]
    exact ⟨fun _ => ⟨m, rfl, rfl⟩, fun h => absurd (Integer.fits_iff.mp (Integer.fits_toInt m)) h⟩
  · rw [hn]
    exact ⟨fun h => absurd (Integer.fits_iff.mpr h) hfits, fun _ => rfl⟩

omit [StringStore σ H] in
/-- **The three ways in which a division ends**, the same for the quotient and for the remainder. -/
theorem BinaryOp.division_cases {op : BinaryOp} (hop : op ∈ [BinaryOp.div, .mod]) (a b : Int64) :
    (b = 0 ∧ op.integers a b = (Outcome.fail (.divisionByZero op) : Outcome (Value σ))) ∨
      (b ≠ 0 ∧ (a = Int64.minValue ∧ b = -1) ∧
        op.integers a b = (Outcome.fail (.integerOverflow (.binary op)) : Outcome (Value σ))) ∨
      (b ≠ 0 ∧ ¬ (a = Int64.minValue ∧ b = -1) ∧
        ∃ n, op.integers a b = (.ok (.int n) : Outcome (Value σ))) := by
  simp only [List.mem_cons, List.not_mem_nil, or_false] at hop
  -- By the divisor, and then by the one pair whose quotient does not fit.
  by_cases hb : b = 0
  · subst hb
    exact .inl ⟨rfl, by obtain rfl | rfl := hop <;> rfl⟩
  · by_cases hedge : a = Int64.minValue ∧ b = -1
    · obtain ⟨hquotient, hremainder⟩ := Integer.division_overflow hb hedge
      refine .inr (.inl ⟨hb, hedge, ?_⟩)
      obtain rfl | rfl := hop
      · rw [integers, hquotient]
        rfl
      · rw [integers, hremainder]
        rfl
    · obtain ⟨q, r, hquotient, hremainder, -⟩ := Integer.division_ok hb hedge
      refine .inr (.inr ⟨hb, hedge, ?_⟩)
      obtain rfl | rfl := hop
      · exact ⟨q, by rw [integers, hquotient]; rfl⟩
      · exact ⟨r, by rw [integers, hremainder]; rfl⟩

/-- An operator on two expressions that have come to integers. -/
theorem eval_integers {names : Interner} {env : Environment (Value σ)} {h h₁ h₂ : H} {l r : Expr}
    {a b : Int64} (hl : l.eval names env h = (.ok (.int a), h₁))
    (hr : r.eval names env h₁ = (.ok (.int b), h₂)) {op : BinaryOp}
    (hop : op.isComparison = false) :
    (Expr.binary op l r).eval names env h = (op.integers a b, h₂) := by
  rw [Expr.eval, hl]
  dsimp only
  rw [hr]
  dsimp only
  rw [BinaryOp.apply, if_neg (by rw [hop]; decide)]

/-- **Evaluating a sum, a product, a quotient or a remainder is exact**, whatever the two expressions
are that have come to the integers. A sum and a product are given just where they have 64 bits. A
quotient and a remainder are a division by zero just where the divisor is zero, and an overflow just
where the least integer is divided by `-1`. Everywhere else the two belong together, and the quotient is
the truncated rational one. Strings are not touched. -/
theorem eval_arithmetic_exact {names : Interner} {env : Environment (Value σ)} {h h₁ h₂ : H}
    {l r : Expr} {a b : Int64} (hl : l.eval names env h = (.ok (.int a), h₁))
    (hr : r.eval names env h₁ = (.ok (.int b), h₂)) :
    let outcome (op : BinaryOp) := (Expr.binary op l r).eval names env h
    (∀ op ∈ [BinaryOp.add, .mul, .div, .mod], (outcome op).2 = h₂) ∧
      BinaryOp.add.Exactly (a.toInt + b.toInt) (outcome .add).1 ∧
      BinaryOp.mul.Exactly (a.toInt * b.toInt) (outcome .mul).1 ∧
      (∀ op ∈ [BinaryOp.div, .mod],
        ((outcome op).1 = Outcome.fail (.divisionByZero op) ↔ b = 0) ∧
        ((outcome op).1 = Outcome.fail (.integerOverflow (.binary op)) ↔
          a = Int64.minValue ∧ b = -1)) ∧
      (b ≠ 0 → ¬ (a = Int64.minValue ∧ b = -1) → ∃ q r : Int64,
        (outcome .div).1 = .ok (.int q) ∧ (outcome .mod).1 = .ok (.int r) ∧
          a.toInt = b.toInt * q.toInt + r.toInt ∧ |r.toInt| < |b.toInt| ∧
          (r.toInt = 0 ∨ r.toInt.sign = a.toInt.sign) ∧
          q.toInt = towardZero ((a.toInt : ℚ) / b.toInt)) := by
  intro outcome
  have houtcome {op : BinaryOp} (hop : op.isComparison = false) :
      outcome op = (op.integers a b, h₂) :=
    eval_integers hl hr hop
  -- The store, the sum, the product, the two failures of a division, and its two results.
  refine ⟨fun op hop => ?_, ?_, ?_, fun op hop => ?_, fun hb hedge => ?_⟩
  · simp only [List.mem_cons, List.not_mem_nil, or_false] at hop
    obtain rfl | rfl | rfl | rfl := hop <;> rw [houtcome rfl]
  · rw [houtcome rfl]
    exact BinaryOp.exactly_computed .add _
  · rw [houtcome rfl]
    exact BinaryOp.exactly_computed .mul _
  · have hcomparison : op.isComparison = false := by
      simp only [List.mem_cons, List.not_mem_nil, or_false] at hop
      obtain rfl | rfl := hop <;> rfl
    rw [houtcome hcomparison]
    -- The two failures are told apart, and neither is a value.
    obtain ⟨rfl, hfail⟩ | ⟨hb, hedge, hfail⟩ | ⟨hb, hedge, n, hn⟩ :=
      BinaryOp.division_cases (σ := σ) hop a b
    · rw [hfail]
      exact ⟨iff_of_true rfl rfl, iff_of_false nofun fun hedge => absurd hedge.2 (by decide)⟩
    · rw [hfail]
      exact ⟨iff_of_false nofun hb, iff_of_true rfl hedge⟩
    · rw [hn]
      exact ⟨iff_of_false nofun hb, iff_of_false nofun hedge⟩
  · obtain ⟨q, r, hquotient, hremainder, hq, hr⟩ := Integer.division_ok hb hedge
    have hb' := Integer.toInt_ne_zero hb
    refine ⟨q, r, ?_, ?_, ?_, ?_, ?_, ?_⟩
    · rw [houtcome rfl, BinaryOp.integers, hquotient]
      rfl
    · rw [houtcome rfl, BinaryOp.integers, hremainder]
      rfl
    · rw [hq, hr, Int.mul_tdiv_add_tmod]
    · rw [hr, Int.abs_eq_natAbs, Int.abs_eq_natAbs]
      exact_mod_cast Integer.natAbs_tmod_lt _ hb'
    · rw [hr, or_iff_not_imp_left]
      exact Integer.sign_tmod_of_ne_zero
    · rw [hq, towardZero_div]

/-- The least integer divided by `-1`, where the divisor is itself a sum. Neither the quotient nor the
remainder is given, although the remainder would be zero. -/
theorem eval_arithmetic_exact_edge :
    let outcome (op : BinaryOp) := (Expr.binary op (.int Int64.minValue)
      (.binary .add (.int 1) (.int (-2)))).eval Interner.initial Environment.initial Heap.empty
    (outcome .div).1 = Outcome.fail (.integerOverflow (.binary .div)) ∧
      (outcome .mod).1 = Outcome.fail (.integerOverflow (.binary .mod)) := by
  intro outcome
  have hl : (Expr.int Int64.minValue).eval Interner.initial Environment.initial Heap.empty =
      (.ok (.int Int64.minValue), Heap.empty) := rfl
  have hr : (Expr.binary .add (.int 1) (.int (-2))).eval Interner.initial Environment.initial
      Heap.empty = (.ok (.int (-1)), Heap.empty) := rfl
  have hdivision := (eval_arithmetic_exact hl hr).2.2.2.1
  have hedge : Int64.minValue = Int64.minValue ∧ (-1 : Int64) = -1 := ⟨rfl, rfl⟩
  exact ⟨(hdivision .div (by decide)).2.mpr hedge, (hdivision .mod (by decide)).2.mpr hedge⟩

end Silly
