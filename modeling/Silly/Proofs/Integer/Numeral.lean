import Mathlib.Data.Nat.Digits.Defs
import Silly.Proofs.Descent.Expression
import Silly.Proofs.Display.Spelling
import Silly.Proofs.Integer.Power
import Silly.Value.Display

/-!
# Integer literals are exact

An integer literal goes through three hands. The kind of a text is told by the shape of its
characters, the number is read digit by digit, and what was read is put into 64 bits or refused. Here
a numeral is what it is in arithmetic: a row of digits in base ten, with a minus sign or without, and
the number that it writes (`Numeral.Writes`).

The texts of the kind of an integer are just the numerals (`Numeral.ofText_eq_integer_iff`), and what
is read of a numeral is the number that it writes (`Numeral.Writes.value_eq`). The number alone then
decides, so leading zeros do no harm, and each of the two limits is met exactly
(`Numeral.Writes.read?_cases`).

A literal is read at any place where an expression is due. Such a place may be anywhere in a program,
so it is said of one token what each of the two parsers makes of it there (`Lexeme.ReadsAs`).
-/

namespace Silly

namespace Numeral

/-- The characters of a row of digits, of which the lowest comes first. -/
def digitChars (ds : List ℕ) : List Char := ds.reverse.map Nat.digitChar

/-- **A numeral and the number that it writes** in base ten. There may be any number of digits, and
any of them may be zero. -/
inductive Writes : String → ℤ → Prop
  | unsigned {ds : List ℕ} : ds ≠ [] → (∀ d ∈ ds, d < 10) →
      Writes (String.ofList (digitChars ds)) (Nat.ofDigits 10 ds : ℕ)
  | negative {ds : List ℕ} : ds ≠ [] → (∀ d ∈ ds, d < 10) →
      Writes (String.ofList ('-' :: digitChars ds)) (-(Nat.ofDigits 10 ds : ℕ))

variable {ds : List ℕ} {cs : List Char} {c : Char} {s : String} {n : ℤ}

/-! ### Digits -/

theorem digitValue_digitChar {d : ℕ} (h : d < 10) : digitValue (Nat.digitChar d) = d := by
  rw [digitValue, Nat.toNat_digitChar_of_lt_ten h]
  exact Nat.add_sub_cancel_left ..

theorem isDigit_digitChar {d : ℕ} (h : d < 10) : (Nat.digitChar d).isDigit = true := by
  have hzero : '0'.toNat = 48 := rfl
  have hnine : '9'.toNat = 57 := rfl
  rw [Char.isDigit_iff_toNat, Nat.toNat_digitChar_of_lt_ten h]
  omega

/-- A digit and its value. -/
theorem digitChar_digitValue (h : c.isDigit = true) :
    digitValue c < 10 ∧ Nat.digitChar (digitValue c) = c := by
  have hzero : '0'.toNat = 48 := rfl
  have hnine : '9'.toNat = 57 := rfl
  rw [Char.isDigit_iff_toNat] at h
  have hlt : digitValue c < 10 := by
    rw [digitValue]
    omega
  refine ⟨hlt, Char.toNat_inj.mp ?_⟩
  rw [Nat.toNat_digitChar_of_lt_ten hlt, digitValue]
  omega

theorem digitChars_ne_nil (h : ds ≠ []) : digitChars ds ≠ [] := by
  simpa [digitChars] using h

theorem isDigit_of_mem_digitChars (h : ∀ d ∈ ds, d < 10) :
    ∀ c ∈ digitChars ds, c.isDigit = true := by
  intro c hc
  obtain ⟨d, hd, rfl⟩ := List.mem_map.mp hc
  exact isDigit_digitChar (h d (List.mem_reverse.mp hd))

/-- **Each row of digit characters** is that of some digits. -/
theorem exists_digits (hcs : cs ≠ []) (h : ∀ c ∈ cs, c.isDigit = true) :
    ∃ ds : List ℕ, ds ≠ [] ∧ (∀ d ∈ ds, d < 10) ∧ digitChars ds = cs := by
  refine ⟨(cs.map digitValue).reverse, by simpa using hcs, ?_, ?_⟩
  · intro d hd
    obtain ⟨c, hc, rfl⟩ := List.mem_map.mp (List.mem_reverse.mp hd)
    exact (digitChar_digitValue (h c hc)).1
  · rw [digitChars, List.reverse_reverse, List.map_map]
    exact (List.map_congr_left fun c hc => (digitChar_digitValue (h c hc)).2).trans cs.map_id

/-- **Reading digit by digit** comes to the number that the digits write. -/
theorem magnitude_digitChars (h : ∀ d ∈ ds, d < 10) :
    magnitude (digitChars ds) = Nat.ofDigits 10 ds := by
  -- By induction on the digits, where the lowest one is read last.
  induction ds with
  | nil => rfl
  | cons d ds ih =>
    obtain ⟨hd, hds⟩ := List.forall_mem_cons.mp h
    calc
      magnitude (digitChars (d :: ds)) =
          10 * magnitude (digitChars ds) + digitValue (Nat.digitChar d) := by
        simp [magnitude, digitChars]
      _ = 10 * Nat.ofDigits 10 ds + d := by rw [ih hds, digitValue_digitChar hd]
      _ = Nat.ofDigits 10 (d :: ds) := Nat.add_comm ..

/-! ### Texts -/

/-- **The characters of an integer literal.** -/
theorem ofText_eq_integer (h : TokenKind.ofText s = .integer) :
    ∃ cs : List Char, cs ≠ [] ∧ (∀ c ∈ cs, c.isDigit = true) ∧
      (s.toList = cs ∨ s.toList = '-' :: cs) := by
  have hchars : TokenKind.ofChars s.toList = .integer :=
    (TokenKind.ofChars_of_isOpen (.inr (.inl h))).trans h
  -- By the first character, which tells the kind of the text.
  cases hs : s.toList with
  | nil => simp [hs, TokenKind.ofChars] at hchars
  | cons c w =>
    rw [hs, TokenKind.ofChars] at hchars
    split at hchars
    · split at hchars <;> cases hchars
    · split at hchars
      · next hopens =>
        split at hchars
        · next hw =>
          have hdigits : ∀ d ∈ w, d.isDigit = true := List.all_eq_true.mp hw
          -- The first character is a digit, or it is the sign, and then a digit follows.
          rcases Bool.or_eq_true_iff.mp hopens with hc | hc
          · exact ⟨c :: w, List.cons_ne_nil c w, List.forall_mem_cons.mpr ⟨hc, hdigits⟩, .inl rfl⟩
          · obtain ⟨hsign, hhead⟩ := Bool.and_eq_true_iff.mp hc
            refine ⟨w, ?_, hdigits, .inr ?_⟩
            · rintro rfl
              cases hhead
            · rw [of_decide_eq_true hsign]
        · cases hchars
      · split at hchars
        · split at hchars <;> cases hchars
        · cases hchars

/-- **The texts of the kind of an integer are the numerals.** -/
theorem ofText_eq_integer_iff : TokenKind.ofText s = .integer ↔ ∃ n, Writes s n := by
  constructor
  -- The digits of the text, with the sign or without, write some number.
  · intro h
    obtain ⟨cs, hcs, hdigits, hs⟩ := ofText_eq_integer h
    obtain ⟨ds, hds, hlt, rfl⟩ := exists_digits hcs hdigits
    rcases hs with hs | hs
    · rw [← String.ofList_toList (s := s), hs]
      exact ⟨_, .unsigned hds hlt⟩
    · rw [← String.ofList_toList (s := s), hs]
      exact ⟨_, .negative hds hlt⟩
  · rintro ⟨n, ⟨hds, hlt⟩ | ⟨hds, hlt⟩⟩
    · exact (TokenKind.ofText_digits (digitChars_ne_nil hds) (isDigit_of_mem_digitChars hlt)).1
    · exact (TokenKind.ofText_digits (digitChars_ne_nil hds) (isDigit_of_mem_digitChars hlt)).2

/-- **What is read of a numeral** is the number that it writes. -/
theorem Writes.value_eq (h : Writes s n) : value s.toList = n := by
  cases h with
  | @unsigned ds hds hlt =>
    rw [String.toList_ofList, value, magnitude_digitChars hlt]
    -- A digit is no sign.
    intro digits hminus
    have hdigit : '-'.isDigit = true :=
      isDigit_of_mem_digitChars hlt '-' (hminus ▸ List.mem_cons_self)
    exact absurd hdigit (by decide)
  | negative hds hlt => rw [String.toList_ofList, value, magnitude_digitChars hlt]

/-- **Whether it is read is decided by the limits.** -/
theorem Writes.read?_cases (h : Writes s n) :
    (∃ i : Int64, i.toInt = n ∧ read? s = some i) ∨ (¬ Integer.Fits n ∧ read? s = none) := by
  -- What is read is the number, and then only the limits are asked.
  rw [read?, h.value_eq]
  by_cases hn : Integer.Fits n
  · exact .inl ⟨Int64.ofInt n, Integer.toInt_ofInt_of_fits hn, if_pos hn⟩
  · exact .inr ⟨hn, if_neg hn⟩

/-- **The text of an integer is a numeral that writes it.** -/
theorem writes_text (i : Int64) : Writes (Integer.text i) i.toInt := by
  -- The text is of the kind of an integer, so it writes some number, and it is read as this one.
  obtain ⟨n, hn⟩ := ofText_eq_integer_iff.mp (Integer.ofText_text i)
  have hread := Integer.read?_text i
  rw [read?, Integer.exactly?_eq_some_iff, hn.value_eq] at hread
  exact hread ▸ hn

end Numeral

/-! ### Literals as expressions -/

/-- **What a lexeme is read as where an expression is due.** The descent reads an expression that
begins with the lexeme, and consumes the lexeme and no more. The parser that runs may have any
statement open and any expressions in it, and what is read fills the innermost of them. -/
structure Lexeme.ReadsAs (l : Lexeme) (result : Except ParseError Expr) : Prop where
  descent : ∀ d ls, d.Left (l :: ls) →
    Descend.expression d = some (result, ⟨ls, none, d.reader.take l, d.depth⟩)
  running : ∀ names o hole blocks around,
    (Fragment.step ⟨.within o (.expression hole around), blocks⟩ (l.token names).2
        (l.token names).1).verdict =
      match result with
      | .ok e => (deliver (l.token names).2 o hole blocks e around).verdict
      | .error e => .reject e

section

variable {l : Lexeme} {i : Int64}

/-- The descent takes an integer literal as its first token, and reads its text. -/
theorem Descend.expression_of_integer {d : Descent} {ls : List Lexeme} (hd : d.Left (l :: ls))
    (hk : l.kind = .integer) :
    Descend.expression d =
      Descend.integer (l.token d.reader.names).1 ⟨ls, none, d.reader.take l, d.depth⟩ := by
  have hnext : Descend.nextOrEnd .expression d =
      some (.ok (l.token d.reader.names).1, ⟨ls, none, d.reader.take l, d.depth⟩) :=
    Descend.run_bind (Descend.run_modifyGet hd.advance_cons)
  have hkind : (l.token d.reader.names).1.kind = .integer := hk
  rw [Descend.expression, Descend.run_bind hnext]
  simp only [hkind]

/-- A literal that is read is an expression. -/
theorem Lexeme.readsAs_of_some (hk : l.kind = .integer) (hread : Numeral.read? l.text = some i) :
    l.ReadsAs (.ok (.int i)) where
  descent d ls hd := by
    have htext : (l.token d.reader.names).1.text = l.text := rfl
    rw [Descend.expression_of_integer hd hk, Descend.integer, htext, hread]
    rfl
  running names o hole blocks around := by
    have htext : (l.token names).1.text = l.text := rfl
    have hkind : (l.token names).1.kind = .integer := hk
    simp only [Fragment.step, stepWithin, stepExpression, hkind, htext, hread]

/-- A literal that is not read is an error that quotes it. -/
theorem Lexeme.readsAs_of_none (hk : l.kind = .integer) (hread : Numeral.read? l.text = none) :
    l.ReadsAs (.error (.integerOutOfRange l.text l.span)) where
  descent d ls hd := by
    have htext : (l.token d.reader.names).1.text = l.text := rfl
    rw [Descend.expression_of_integer hd hk, Descend.integer, htext, hread]
    rfl
  running names o hole blocks around := by
    have htext : (l.token names).1.text = l.text := rfl
    have hkind : (l.token names).1.kind = .integer := hk
    simp only [Fragment.step, stepWithin, stepExpression, hkind, htext, hread]
    rfl

end

/-- **Integer literals denote their decimal value, and the range is met exactly.** The texts of the
kind of an integer are the numerals. Where an expression is due, a numeral is read as the number that
it writes if that is from `-2 ^ 63` to `2 ^ 63 - 1`, and otherwise it is an error with its text and its
place. Each integer is written, in a program and in what is printed, as a numeral that is read as that
integer. -/
theorem integer_literals_exact :
    (∀ s, TokenKind.ofText s = .integer ↔ ∃ n, Numeral.Writes s n) ∧
    (∀ (l : Lexeme) n, Numeral.Writes l.text n →
      (-2 ^ 63 ≤ n ∧ n ≤ 2 ^ 63 - 1 → ∃ i : Int64, i.toInt = n ∧ l.ReadsAs (.ok (.int i))) ∧
      (¬ (-2 ^ 63 ≤ n ∧ n ≤ 2 ^ 63 - 1) →
        l.ReadsAs (.error (.integerOutOfRange l.text l.span)))) ∧
    ∀ i : Int64,
      Numeral.Writes (Integer.text i) i.toInt ∧
      (∀ l : Lexeme, l.text = Integer.text i → l.ReadsAs (.ok (.int i))) ∧
      (∀ text, (Expr.int i).display text = Integer.text i) ∧
      ∀ (σ H : Type) [StringStore σ H] (h : H),
        (Value.int i : Value σ).literal h = .ok (Integer.text i) ∧
          (Value.int i : Value σ).printed h = .ok (Integer.text i) := by
  refine ⟨fun s => Numeral.ofText_eq_integer_iff, fun l n hwrites => ?_, fun i =>
    ⟨Numeral.writes_text i, fun l hl => ?_, fun _ => rfl, fun σ H _ h => ⟨rfl, rfl⟩⟩⟩
  -- A numeral is of the kind of an integer, and the limits decide whether it is read.
  · have hk : l.kind = .integer := Numeral.ofText_eq_integer_iff.mpr ⟨n, hwrites⟩
    rw [Int.le_sub_one_iff, ← Integer.fits_iff]
    rcases hwrites.read?_cases with ⟨i, hi, hread⟩ | ⟨hfits, hread⟩
    · refine ⟨fun _ => ⟨i, hi, Lexeme.readsAs_of_some hk hread⟩, fun hfits => ?_⟩
      exact absurd (hi ▸ Integer.fits_toInt i) hfits
    · exact ⟨fun h => absurd h hfits, fun _ => Lexeme.readsAs_of_none hk hread⟩
  -- The text of an integer is a numeral, and it is read as this integer.
  · refine Lexeme.readsAs_of_some ?_ ?_
    · rw [Lexeme.kind, hl, Integer.ofText_text]
    · rw [hl, Integer.read?_text]

/-- The lower limit with zeros before it, and one more than the upper limit. -/
theorem integer_literals_exact_edge :
    let l : Lexeme := ⟨"-009223372036854775808", 6, 28⟩
    let m : Lexeme := ⟨"9223372036854775808", 6, 25⟩
    Numeral.Writes l.text (-2 ^ 63) ∧ Numeral.Writes m.text (2 ^ 63) ∧
      (∃ i : Int64, i.toInt = -2 ^ 63 ∧ l.ReadsAs (.ok (.int i))) ∧
      m.ReadsAs (.error (.integerOutOfRange "9223372036854775808" ⟨6, 25⟩)) := by
  intro l m
  have hl : Numeral.Writes l.text (-2 ^ 63) :=
    @Numeral.Writes.negative [8, 0, 8, 5, 7, 7, 4, 5, 8, 6, 3, 0, 2, 7, 3, 3, 2, 2, 9, 0, 0]
      (by decide) (by decide)
  have hm : Numeral.Writes m.text (2 ^ 63) :=
    @Numeral.Writes.unsigned [8, 0, 8, 5, 7, 7, 4, 5, 8, 6, 3, 0, 2, 7, 3, 3, 2, 2, 9]
      (by decide) (by decide)
  exact ⟨hl, hm, (integer_literals_exact.2.1 l _ hl).1 (by decide),
    (integer_literals_exact.2.1 m _ hm).2 (by decide)⟩

end Silly
