import Silly.Numeral
import Silly.Token.Lexeme
import Silly.Tree.Display

/-!
# Which texts are of which kind

The kind of a text is judged by fixed spellings first and by its characters otherwise
(`TokenKind.ofText`). Here that judgement is turned round: what the characters of an identifier, a
string literal and an integer literal are (`ofText_eq_identifier`, `ofText_eq_string`), and which
texts are sure to be of these kinds (`ofText_quote`, `Integer.ofText_text`).

Cutting a source into lexemes looks only at whether a character breaks a word (`isBreak`). So what
matters of the classes of characters is that no character of a name, of a numeral or of a word of the
language breaks a word. The classes are lists of ranges of code points, and are disjoint because the
ranges are.
-/

namespace Silly

/-! ### Classes of characters -/

/-- Whether two classes have no character in common. -/
def Ranges.disjoint (rs rs' : Ranges) : Bool :=
  rs.all fun r => rs'.all fun r' => r.2 < r'.1 || r'.2 < r.1

/-- No character is in both of two disjoint classes. -/
theorem Ranges.not_has_of_disjoint {rs rs' : Ranges} {c : Char} (h : rs.disjoint rs' = true)
    (hc : rs.has c = true) : rs'.has c = false := by
  simp only [disjoint, List.all_eq_true, Bool.or_eq_true, decide_eq_true_eq] at h
  obtain ⟨r, hr, hlo, hhi⟩ := Ranges.has_iff.mp hc
  -- A common character would be in two ranges of which one ends before the other begins.
  rw [Bool.eq_false_iff]
  intro hc'
  obtain ⟨r', hr', hlo', hhi'⟩ := Ranges.has_iff.mp hc'
  have := h r hr r' hr'
  omega

/-- Whether a character ends the word before it. -/
def isBreak (c : Char) : Bool := isBlank c || isMark c

/-- What none of the marks is. -/
theorem eq_false_of_isMark {p : Char → Bool} (hp : marks.all (!p ·) = true) {c : Char}
    (h : isMark c = true) : p c = false := by
  have hc : c ∈ marks := by simpa [isMark] using h
  simpa using List.all_eq_true.mp hp c hc

theorem isBlank_eq_false_of_isMark {c : Char} (h : isMark c = true) : isBlank c = false :=
  eq_false_of_isMark (by decide +kernel) h

/-- **No character of a name breaks a word.** -/
theorem isBreak_eq_false_of_isNameChar {c : Char} (h : isNameChar c = true) : isBreak c = false := by
  have hnumeric : blankRanges.disjoint numericRanges = true := by decide +kernel
  have hletter : blankRanges.disjoint letterRanges = true := by decide +kernel
  have hmarks : marks.all (!isNameChar ·) = true := by decide +kernel
  -- It is no blank, since blanks are in none of the classes of names, and it is none of the marks.
  rw [isBreak, Bool.or_eq_false_iff]
  constructor
  · rw [Bool.eq_false_iff]
    intro hblank
    rw [isNameChar, isNumeric, isLetter, Ranges.not_has_of_disjoint hnumeric hblank,
      Ranges.not_has_of_disjoint hletter hblank] at h
    exact Bool.false_ne_true h
  · rw [Bool.eq_false_iff]
    intro hmark
    rw [eq_false_of_isMark hmarks hmark] at h
    exact Bool.false_ne_true h

/-- **No digit breaks a word.** -/
theorem isBreak_eq_false_of_isDigit {c : Char} (h : c.isDigit = true) : isBreak c = false := by
  -- The ten digits are the first range of numeric characters.
  have hrange : (0x30, 0x39) ∈ numericRanges := List.mem_cons_self
  have hnumeric : isNumeric c = true :=
    Ranges.has_iff.mpr ⟨_, hrange, Char.isDigit_iff_toNat.mp h⟩
  apply isBreak_eq_false_of_isNameChar
  rw [isNameChar, hnumeric, Bool.true_or]

namespace TokenKind

variable {s : String} {k : TokenKind}

/-! ### Fixed spellings -/

theorem ofText_delimiter (d : Delimiter) : ofText d.text = .delimiter d := by cases d <;> decide

theorem ofText_statement (k : StatementKeyword) : ofText k.text = .statement k := by
  cases k <;> decide

theorem ofText_keyword (k : Keyword) : ofText k.text = .keyword k := by cases k <;> decide

theorem ofText_unary (op : UnaryOp) : ofText op.symbol = .unary op := by cases op <;> decide

theorem ofText_binary (op : BinaryOp) : ofText op.symbol = .binary op := by cases op <;> decide

theorem ofText_boolText (b : Bool) : ofText (boolText b) = .boolean b := by cases b <;> decide

/-- The texts with a fixed spelling. -/
def spellings : List String :=
  Delimiter.all.map (·.text) ++ StatementKeyword.all.map (·.text) ++ Keyword.all.map (·.text) ++
    UnaryOp.all.map (·.symbol) ++ BinaryOp.all.map (·.symbol) ++ ["true", "false"]

theorem mem_map_of_find? {α : Type} {l : List α} {a : α} {f : α → String}
    (h : l.find? (f · = s) = some a) : s ∈ l.map f := by
  have hs := List.find?_some h
  exact List.mem_map.mpr ⟨a, List.mem_of_find?_eq_some h, by simpa using hs⟩

/-- **A text that is found by its spelling** has one of the spellings. -/
theorem mem_spellings (h : fixed? s = some k) : s ∈ spellings := by
  simp only [spellings, List.mem_append]
  -- The six tables are tried one after the other, and the text is in the one that answers first.
  simp only [fixed?, Option.orElse_eq_orElse, Option.orElse_eq_or, Option.or_eq_some_iff,
    Option.map_eq_some_iff] at h
  rcases h with ⟨a, ha, -⟩ | ⟨-, ⟨a, ha, -⟩ | ⟨-, ⟨a, ha, -⟩ | ⟨-, ⟨a, ha, -⟩ | ⟨-, ⟨a, ha, -⟩ |
    ⟨-, a, ha, -⟩⟩⟩⟩⟩
  · simp [mem_map_of_find? ha]
  · simp [mem_map_of_find? ha]
  · simp [mem_map_of_find? ha]
  · simp [mem_map_of_find? ha]
  · simp [mem_map_of_find? ha]
  · right
    unfold boolean? at ha
    split at ha
    · simp [*]
    · split at ha
      · simp [*]
      · cases ha

/-- No fixed spelling begins as a string or an integer does. -/
theorem head?_of_mem_spellings (h : s ∈ spellings) {c : Char} (hc : s.toList.head? = some c) :
    c ≠ '"' ∧ c ≠ '-' ∧ c.isDigit = false := by
  -- The spellings are finitely many, and each is looked at.
  have hall : (spellings.all fun w =>
      w.toList.head?.all fun d => d != '"' && d != '-' && !d.isDigit) = true := by decide +kernel
  have hs := List.all_eq_true.mp hall s h
  simpa [hc, and_assoc] using hs

/-! ### The kinds that have no fixed spelling -/

/-- Whether a kind is one that `ofChars` judges. -/
def IsOpen (k : TokenKind) : Prop := k = identifier ∨ k = integer ∨ k = string ∨ k = unknown

/-- A text with a fixed spelling is of none of the open kinds. -/
theorem fixed?_not_isOpen {s : String} {k : TokenKind} (h : fixed? s = some k) : ¬ k.IsOpen := by
  unfold fixed? at h
  rintro (rfl | rfl | rfl | rfl) <;> simp at h

/-- A text of an open kind is of the kind that its characters have. -/
theorem ofChars_of_isOpen {s : String} (h : (ofText s).IsOpen) : ofChars s.toList = ofText s := by
  unfold ofText at h ⊢
  cases hs : fixed? s with
  | none => rfl
  | some k =>
    rw [hs] at h
    exact absurd h (fixed?_not_isOpen hs)

/-- **The characters of an identifier.** -/
theorem ofText_eq_identifier (h : ofText s = .identifier) :
    ∃ c w, s.toList = c :: w ∧ isLetter c = true ∧ ∀ d ∈ w, isNameChar d = true := by
  have hchars : ofChars s.toList = .identifier := (ofChars_of_isOpen (.inl h)).trans h
  cases hs : s.toList with
  | nil => simp [hs, ofChars] at hchars
  | cons c w =>
    -- The first character decides between the kinds, and only a letter opens an identifier.
    rw [hs, ofChars] at hchars
    split at hchars
    · split at hchars <;> cases hchars
    · split at hchars
      · split at hchars <;> cases hchars
      · split at hchars
        · next hc =>
          split at hchars
          · next hw => exact ⟨c, w, rfl, hc, List.all_eq_true.mp hw⟩
          · cases hchars
        · cases hchars

/-- **The characters of a string literal.** -/
theorem ofText_eq_string (h : ofText s = .string) :
    ∃ w, s.toList = '"' :: w ∧ w.getLast? = some '"' := by
  have hchars : ofChars s.toList = .string := (ofChars_of_isOpen (.inr (.inr (.inl h)))).trans h
  cases hs : s.toList with
  | nil => simp [hs, ofChars] at hchars
  | cons c w =>
    -- Of the texts that begin with a quote, the closed ones are strings, and of all others none is.
    rw [hs, ofChars] at hchars
    split at hchars
    · next hc =>
      split at hchars
      · next hw => exact ⟨w, by rw [hc], of_decide_eq_true hw⟩
      · cases hchars
    · split at hchars
      · split at hchars <;> cases hchars
      · split at hchars
        · split at hchars <;> cases hchars
        · cases hchars

/-- A text that begins as no fixed spelling does is judged by its characters. -/
theorem ofText_of_head? {c : Char} (hc : s.toList.head? = some c)
    (h : c = '"' ∨ c = '-' ∨ c.isDigit = true) : ofText s = ofChars s.toList := by
  unfold ofText
  cases hs : fixed? s with
  | none => rfl
  | some k =>
    -- A fixed spelling begins otherwise.
    obtain ⟨hquote, hminus, hdigit⟩ := head?_of_mem_spellings (mem_spellings hs) hc
    simp_all

/-- **A text in quotes is a string literal.** -/
theorem ofText_quote (s : String) : ofText (quote s) = .string := by
  have hs : (quote s).toList = '"' :: (s.toList ++ ['"']) := by simp [quote]
  rw [ofText_of_head? (by rw [hs]; rfl) (.inl rfl), hs]
  simp [ofChars, closesString]

/-- **A row of digits is an integer literal**, and so it is with a minus sign before it. -/
theorem ofText_digits {cs : List Char} (hcs : cs ≠ []) (h : ∀ c ∈ cs, c.isDigit = true) :
    ofText (String.ofList cs) = .integer ∧ ofText (String.ofList ('-' :: cs)) = .integer := by
  -- The row has a first digit, which opens an integer, or a second character if a minus sign is first.
  obtain ⟨d, ds, rfl⟩ := List.exists_cons_of_ne_nil hcs
  have hd : d.isDigit = true := h d List.mem_cons_self
  have hquote : d ≠ '"' := by
    rintro rfl
    exact absurd hd (by decide)
  constructor
  · rw [ofText_of_head? (by simp) (.inr (.inr hd))]
    simp_all [ofChars, opensInteger]
  · rw [ofText_of_head? (by simp) (.inr (.inl rfl))]
    simp_all [ofChars, opensInteger]

end TokenKind

/-! ### Numerals -/

namespace Integer

/-- The characters of an integer's text: its digits, after a minus sign if it is negative. -/
theorem toList_text (n : Int64) :
    (0 ≤ n.toInt ∧ (text n).toList = Nat.toDigits 10 n.toInt.natAbs) ∨
      (n.toInt < 0 ∧ (text n).toList = '-' :: Nat.toDigits 10 n.toInt.natAbs) := by
  unfold text
  cases n.toInt with
  | ofNat m => exact .inl ⟨Int.natCast_nonneg m, Nat.toList_repr⟩
  | negSucc m =>
    refine .inr ⟨Int.negSucc_lt_zero m, ?_⟩
    have htext : toString (Int.negSucc m) = "-" ++ (m + 1).repr := rfl
    rw [htext, String.toList_append, Nat.toList_repr]
    rfl

theorem isDigit_of_mem_toDigits {n : Nat} {c : Char} (h : c ∈ Nat.toDigits 10 n) :
    c.isDigit = true :=
  Nat.isDigit_of_mem_toDigits (by decide) (by decide) h

/-- An integer's text holds digits and, at most, a minus sign. -/
theorem eq_or_isDigit_of_mem_text {n : Int64} {c : Char} (h : c ∈ (text n).toList) :
    c = '-' ∨ c.isDigit = true := by
  obtain ⟨-, hs⟩ | ⟨-, hs⟩ := toList_text n
  · rw [hs] at h
    exact .inr (isDigit_of_mem_toDigits h)
  · rw [hs, List.mem_cons] at h
    exact h.imp_right isDigit_of_mem_toDigits

/-- An integer's text is not empty. -/
theorem text_ne_nil (n : Int64) : (text n).toList ≠ [] := by
  obtain ⟨-, hs⟩ | ⟨-, hs⟩ := toList_text n
  · rw [hs]
    exact Nat.toDigits_ne_nil
  · rw [hs]
    exact List.cons_ne_nil _ _

/-- **The text of an integer is an integer literal.** -/
theorem ofText_text (n : Int64) : TokenKind.ofText (text n) = .integer := by
  obtain ⟨hunsigned, hnegative⟩ := TokenKind.ofText_digits
    -- The digits of the magnitude, with or without a sign, and the text is one of both.
    (Nat.toDigits_ne_nil (b := 10) (n := n.toInt.natAbs)) fun _ hc => isDigit_of_mem_toDigits hc
  obtain ⟨-, hs⟩ | ⟨-, hs⟩ := toList_text n
  · rwa [← hs, String.ofList_toList] at hunsigned
  · rwa [← hs, String.ofList_toList] at hnegative

/-- **The text of an integer writes that integer.** -/
theorem read?_text (n : Int64) : Numeral.read? (text n) = some n := by
  have hmagnitude (m : Nat) : Numeral.magnitude (Nat.toDigits 10 m) = m :=
    Nat.ofDigitChars_ten_toDigits
  -- What is written is in range because it is the value of an integer of the machine.
  rw [Numeral.read?, exactly?_eq_some_iff]
  obtain ⟨hn, hs⟩ | ⟨hn, hs⟩ := toList_text n
  · rw [hs, Numeral.value, hmagnitude]
    · omega
    · -- A numeral without a sign is not taken for a negative one.
      intro digits hminus
      have hdigit : '-'.isDigit = true :=
        isDigit_of_mem_toDigits (hminus ▸ List.mem_cons_self)
      exact absurd hdigit (by decide)
  · rw [hs, Numeral.value, hmagnitude]
    omega

end Integer

end Silly
