import Silly.Proofs.Lexing.Cut
import Silly.Token.Basic

/-!
# Nothing of a source is lost

The tokens of a source, read with the blanks between them, are the source. Each token has the bytes
of its span for its text, the spans follow one another, and what no span covers is blank
(`tokenize_lossless`).

Where a token ends is decided by the character it starts with and the ones after it (`tokenFrom`).
The same token is found by matching: of the beginnings of the rest of the source that some pattern
of tokens describes, it is the longest (`LongestMatch`). A character that is not blank always begins
such a match, so no character is in the way of a token.

The marks are written out here a second time (`loneMarks`), apart from the operators and delimiters
that they stand for. Both lists have the same characters, and a token is of the kind of a delimiter
or of an operator exactly if its text is one of them.
-/

namespace Silly

/-- The characters that end a word and are tokens by themselves. -/
def loneMarks : List Char :=
  ['(', ')', '[', ']', '!', '#', '&', '|', '+', '*', '/', '%', '^', '@', '=', '\\', '>', '<']

/-- Whether a string goes on at this character. -/
def goesOnQuoted (c : Char) : Bool := c != '"' && c != '\n'

/-- Whether a word goes on at this character. -/
def goesOnWord (c : Char) : Bool := !isBlank c && !loneMarks.contains c

/-- **The token that starts with `c`**, where the source goes on with `rest`. -/
def tokenFrom (c : Char) (rest : List Char) : List Char :=
  if c ∈ loneMarks then [c]
  else if c = '"' then
    let body := rest.takeWhile goesOnQuoted
    if (rest.dropWhile goesOnQuoted).head? = some '"' then c :: (body ++ ['"']) else c :: body
  else c :: rest.takeWhile goesOnWord

/-- **The patterns of tokens.** -/
inductive Pattern : List Char → Prop
  | mark {c : Char} : c ∈ loneMarks → Pattern [c]
  /-- A string need not have its second quote. -/
  | unclosed {body : List Char} : (∀ d ∈ body, goesOnQuoted d = true) → Pattern ('"' :: body)
  | closed {body : List Char} :
      (∀ d ∈ body, goesOnQuoted d = true) → Pattern ('"' :: (body ++ ['"']))
  /-- A quote may stand in a word, but not first. -/
  | word {c : Char} {w : List Char} :
      c ≠ '"' → (∀ d ∈ c :: w, goesOnWord d = true) → Pattern (c :: w)

/-- **The longest match**: among the beginnings of `cs` that a pattern describes, `w` is the
longest. -/
structure LongestMatch (w cs : List Char) : Prop where
  described : Pattern w
  begins : w <+: cs
  longest : ∀ v, Pattern v → v <+: cs → v.length ≤ w.length

/-- Whether a kind is that of a delimiter or of an operator. -/
def TokenKind.isLone : TokenKind → Bool
  | delimiter _ | unary _ | binary _ => true
  | _ => false

/-- **A source and its tokens**, when nothing is lost. -/
structure LosslesslyCut (source : String) (ts : List Token) : Prop where
  /-- No span is empty, and none reaches past the source. -/
  nonempty : ∀ t ∈ ts, t.span.start < t.span.stop ∧ t.span.stop ≤ source.utf8ByteSize
  /-- A token ends before the next one starts. -/
  ordered : ts.Pairwise fun t t' => t.span.stop ≤ t'.span.start
  /-- A token's text is the bytes of its span. -/
  bytes : ∀ t ∈ ts,
    source.toByteArray.extract t.span.start t.span.stop = t.text.toByteArray
  /-- A character that no span covers is blank. -/
  blanks : ∀ before c rest, source.toList = before ++ c :: rest →
    (∀ t ∈ ts, ¬ (t.span.start ≤ String.utf8Len before ∧ String.utf8Len before < t.span.stop)) →
    isBlank c = true
  /-- A token starts at a character that is not blank, and ends where the rules say. This is the
  longest match there. -/
  rules : ∀ t ∈ ts, ∃ before c rest, source.toList = before ++ c :: rest ∧
    String.utf8Len before = t.span.start ∧ isBlank c = false ∧
    t.text = String.ofList (tokenFrom c rest) ∧ LongestMatch (tokenFrom c rest) (c :: rest)
  /-- What a token is, its text says. -/
  kinds : ∀ t ∈ ts, t.kind = .ofText t.text
  /-- The operators and delimiters are the marks. -/
  lone : ∀ t ∈ ts, t.kind.isLone = true ↔ ∃ c ∈ loneMarks, t.text = c.toString

/-! ### Marks -/

/-- **The two lists of marks agree.** -/
theorem isMark_iff {c : Char} : isMark c = true ↔ c ∈ loneMarks := by
  -- Each list is looked through for the characters of the other.
  have hmarks : marks ⊆ loneMarks := by decide
  have hlone : loneMarks ⊆ marks := by decide
  rw [isMark, List.contains_iff_mem]
  exact ⟨fun h => hmarks h, fun h => hlone h⟩

theorem goesOnWord_eq (c : Char) : goesOnWord c = !isBreak c := by
  have hc : loneMarks.contains c = isMark c := by
    rw [Bool.eq_iff_iff, isMark_iff, List.contains_iff_mem]
  rw [goesOnWord, isBreak, hc, Bool.not_or]

theorem unquoted_iff {body : List Char} :
    Unquoted body ↔ ∀ d ∈ body, goesOnQuoted d = true := by
  simp [Unquoted, goesOnQuoted]

/-- **A text is a delimiter or an operator exactly if it is a mark.** -/
theorem TokenKind.isLone_ofText (s : String) :
    (ofText s).isLone = true ↔ ∃ c ∈ loneMarks, s = c.toString := by
  constructor
  · intro h
    -- Only a fixed spelling is of such a kind, and there are finitely many to look through.
    have hfixed : s ∈ spellings := by
      cases hs : fixed? s with
      | some k => exact mem_spellings hs
      | none =>
        -- No kind that is judged by characters is that of a delimiter or an operator.
        have hopen : ∀ cs, (ofChars cs).isLone = false := by
          intro cs
          fun_cases ofChars cs <;> rfl
        rw [ofText, hs, Option.getD_none, hopen] at h
        cases h
    have hall : ∀ w ∈ spellings, (ofText w).isLone = true → w ∈ loneMarks.map (·.toString) := by
      decide +kernel
    obtain ⟨c, hc, hcs⟩ := List.mem_map.mp (hall s hfixed h)
    exact ⟨c, hc, hcs.symm⟩
  · rintro ⟨c, hc, rfl⟩
    -- In the other direction the marks are looked through.
    have hall : (loneMarks.all fun d => (ofText d.toString).isLone) = true := by decide +kernel
    exact List.all_eq_true.mp hall c hc

/-! ### The end of a token -/

section
variable {goes : Char → Bool} {v w rest : List Char}

/-- A row that goes on everywhere is taken up to what stops it. -/
theorem takeWhile_append (hw : ∀ c ∈ w, goes c = true) (hrest : ∀ c ∈ rest.head?, goes c = false) :
    (w ++ rest).takeWhile goes = w := by
  rw [List.takeWhile_append_of_pos hw]
  cases rest with
  | nil => simp
  | cons c rest => simp [hrest c rfl]

/-- What stops it is what remains. -/
theorem dropWhile_append (hw : ∀ c ∈ w, goes c = true) (hrest : ∀ c ∈ rest.head?, goes c = false) :
    (w ++ rest).dropWhile goes = rest := by
  rw [List.dropWhile_append_of_pos hw]
  cases rest with
  | nil => rfl
  | cons c rest => simp [hrest c rfl]

/-- A beginning that goes on everywhere does not go past a character that stops it. -/
theorem length_le_of_begins (hv : ∀ c ∈ v, goes c = true) (hbegins : v <+: w ++ rest)
    (hrest : ∀ c ∈ rest.head?, goes c = false) : v.length ≤ w.length := by
  refine Nat.le_of_not_lt fun hlt => ?_
  -- Otherwise `v` has all of `w` and the first character of the rest.
  obtain ⟨u, rfl⟩ : w <+: v :=
    List.prefix_of_prefix_length_le (List.prefix_append w rest) hbegins (by omega)
  -- The first character past `w` is in the rest and in `v`, so it would stop and go on.
  have hu : u <+: rest := (List.prefix_append_right_inj w).mp hbegins
  cases u with
  | nil => simp at hlt
  | cons c u =>
    obtain ⟨u', rfl⟩ := hu
    have hstop : goes c = false := hrest c rfl
    have hgo : goes c = true := hv c (by simp)
    rw [hstop] at hgo
    cases hgo

end

namespace Pattern

variable {c : Char} {u v cs : List Char}

/-- What a pattern describes is not empty, so it starts where the source goes on. -/
theorem exists_of_begins (h : Pattern v) (hbegins : v <+: c :: cs) :
    ∃ u, v = c :: u ∧ u <+: cs := by
  cases v with
  | nil => cases h
  | cons d u =>
    obtain ⟨rfl, hu⟩ := List.cons_prefix_cons.mp hbegins
    exact ⟨u, rfl, hu⟩

/-- A word does not start with a mark, nor does a string. -/
theorem eq_nil_of_mark (h : Pattern (c :: u)) (hc : c ∈ loneMarks) : u = [] := by
  have hquote : ¬ '"' ∈ loneMarks := by decide
  cases h with
  | mark _ => rfl
  | unclosed _ => exact absurd hc hquote
  | closed _ => exact absurd hc hquote
  | word _ hw =>
    have hgo := hw c List.mem_cons_self
    rw [goesOnWord_eq, isBreak, isMark_iff.mpr hc, Bool.or_true] at hgo
    cases hgo

/-- What starts with a quote is a string, which has its second quote or not. -/
theorem of_quote (h : Pattern ('"' :: u)) :
    (∀ d ∈ u, goesOnQuoted d = true) ∨
      ∃ body, u = body ++ ['"'] ∧ ∀ d ∈ body, goesOnQuoted d = true := by
  cases h with
  | mark hc => exact absurd hc (by decide)
  | unclosed hbody => exact .inl hbody
  | closed hbody => exact .inr ⟨_, rfl, hbody⟩
  | word hne _ => exact absurd rfl hne

/-- What starts with a character of a word goes on as a word. -/
theorem of_word (h : Pattern (c :: u)) (hquote : c ≠ '"') (hc : goesOnWord c = true) :
    ∀ d ∈ c :: u, goesOnWord d = true := by
  cases h with
  | mark _ =>
    intro d hd
    rwa [List.mem_singleton.mp hd]
  | unclosed _ => exact absurd rfl hquote
  | closed _ => exact absurd rfl hquote
  | word _ hw => exact hw

end Pattern

namespace CutsOff

variable {w rest : List Char}

/-- A lexeme starts with a character that is not blank, and is the token from there. -/
theorem eq_tokenFrom (h : CutsOff w rest) :
    ∃ c u, w = c :: u ∧ isBlank c = false ∧ tokenFrom c (u ++ rest) = w := by
  cases h with
  | @mark c _ hc =>
    refine ⟨c, [], rfl, isBlank_eq_false_of_isMark hc, ?_⟩
    rw [tokenFrom, if_pos (isMark_iff.mp hc)]
  | @closed body _ hbody =>
    refine ⟨'"', _, rfl, by decide, ?_⟩
    -- The second quote stands where the body of the string stops.
    have hsplit : body ++ ['"'] ++ rest = body ++ '"' :: rest := by simp
    -- A quote does not go on, so the body is taken in full and what remains starts with it.
    have hstop : ∀ c ∈ ('"' :: rest).head?, goesOnQuoted c = false := by simp [goesOnQuoted]
    rw [tokenFrom, if_neg (by decide), if_pos rfl, hsplit,
      takeWhile_append (unquoted_iff.mp hbody) hstop, dropWhile_append (unquoted_iff.mp hbody) hstop]
    exact if_pos rfl
  | @unclosed body _ hbody hrest =>
    refine ⟨'"', _, rfl, by decide, ?_⟩
    have hstop : ∀ c ∈ rest.head?, goesOnQuoted c = false := by
      intro c hc
      simp [goesOnQuoted, hrest c hc]
    -- What stops the body is a line break or the end, and in no case a quote.
    have hopen : rest.head? ≠ some '"' := fun hc => absurd (hrest _ hc) (by decide)
    rw [tokenFrom, if_neg (by decide), if_pos rfl, takeWhile_append (unquoted_iff.mp hbody) hstop,
      dropWhile_append (unquoted_iff.mp hbody) hstop]
    exact if_neg hopen
  | @word c u _ hquote hw hrest =>
    have hc : isBreak c = false := hw c List.mem_cons_self
    have hmark : ¬ c ∈ loneMarks := by
      rw [← isMark_iff, (Bool.or_eq_false_iff.mp hc).2]
      exact Bool.false_ne_true
    -- A word goes on at each of its characters and stops where it was cut off.
    have hgo : ∀ d ∈ u, goesOnWord d = true := by
      intro d hd
      rw [goesOnWord_eq, hw d (List.mem_cons_of_mem c hd)]
      rfl
    have hstop : ∀ d ∈ rest.head?, goesOnWord d = false := by
      intro d hd
      rw [goesOnWord_eq, hrest d hd]
      rfl
    refine ⟨c, u, rfl, (Bool.or_eq_false_iff.mp hc).1, ?_⟩
    rw [tokenFrom, if_neg hmark, if_neg hquote, takeWhile_append hgo hstop]

/-- **A lexeme is the longest match.** -/
theorem longestMatch (h : CutsOff w rest) : LongestMatch w (w ++ rest) := by
  -- Another match starts with the same character, which leaves few patterns for it.
  cases h with
  | @mark c _ hc =>
    have hc := isMark_iff.mp hc
    refine ⟨.mark hc, List.prefix_append _ _, ?_⟩
    intro v hv hbegins
    obtain ⟨u, rfl, -⟩ := hv.exists_of_begins hbegins
    rw [hv.eq_nil_of_mark hc]
  | @closed body _ hbody =>
    refine ⟨.closed (unquoted_iff.mp hbody), List.prefix_append _ _, ?_⟩
    intro v hv hbegins
    have hsplit : '"' :: (body ++ ['"']) ++ rest = '"' :: (body ++ '"' :: rest) := by simp
    have hstop : ∀ c ∈ ('"' :: rest).head?, goesOnQuoted c = false := by simp [goesOnQuoted]
    rw [hsplit] at hbegins
    obtain ⟨u, rfl, hu⟩ := hv.exists_of_begins hbegins
    simp only [List.length_cons, List.length_append, List.length_nil]
    -- A match without the second quote stops before it. With it, the match is one longer at most.
    obtain hbody' | ⟨body', rfl, hbody'⟩ := hv.of_quote
    · have hle := length_le_of_begins hbody' hu hstop
      omega
    · have hle := length_le_of_begins hbody' ((List.prefix_append _ _).trans hu) hstop
      simp only [List.length_append, List.length_cons, List.length_nil]
      omega
  | @unclosed body _ hbody hrest =>
    refine ⟨.unclosed (unquoted_iff.mp hbody), List.prefix_append _ _, ?_⟩
    intro v hv hbegins
    rw [List.cons_append] at hbegins
    obtain ⟨u, rfl, hu⟩ := hv.exists_of_begins hbegins
    -- Nothing that a string may hold goes past the end of the line, its second quote included.
    have hline : ∀ d ∈ u, (d != '\n') = true := by
      intro d hd
      obtain hbody' | ⟨body', rfl, hbody'⟩ := hv.of_quote
      · exact (Bool.and_eq_true_iff.mp (hbody' d hd)).2
      · rcases List.mem_append.mp hd with hd | hd
        · exact (Bool.and_eq_true_iff.mp (hbody' d hd)).2
        · obtain rfl := List.mem_singleton.mp hd
          decide
    exact Nat.succ_le_succ (length_le_of_begins hline hu fun c hc => by simp [hrest c hc])
  | @word c u _ hne hw hrest =>
    -- Any other match is a word, and words stop at what cut this one off.
    have hgo : ∀ d ∈ c :: u, goesOnWord d = true := by
      intro d hd
      rw [goesOnWord_eq, hw d hd]
      rfl
    refine ⟨.word hne hgo, List.prefix_append _ _, ?_⟩
    intro v hv hbegins
    obtain ⟨u', rfl, -⟩ := hv.exists_of_begins hbegins
    refine length_le_of_begins (hv.of_word hne (hgo c List.mem_cons_self)) hbegins ?_
    intro d hd
    rw [goesOnWord_eq, hrest d hd]
    rfl

end CutsOff

/-! ### Lexemes in their places -/

namespace Placed

variable {offset : Nat} {cs : List Char} {ls : List Lexeme}

/-- A lexeme stands after the characters before it. -/
theorem exists_place (h : Placed offset cs ls) :
    ∀ l ∈ ls, ∃ before w rest, cs = before ++ (w ++ rest) ∧ CutsOff w rest ∧
      l = ⟨String.ofList w, offset + String.utf8Len before,
        offset + String.utf8Len before + String.utf8Len w⟩ := by
  induction h with
  | nil => simp
  | @blank offset c cs ls _ _ ih =>
    -- The blank is one more character before the lexeme.
    intro l hl
    obtain ⟨before, w, rest, rfl, hcut, rfl⟩ := ih l hl
    have hsize : offset + c.utf8Size + String.utf8Len before =
        offset + String.utf8Len (c :: before) := by
      rw [String.utf8Len_cons]
      omega
    exact ⟨c :: before, w, rest, rfl, hcut, by rw [hsize]⟩
  | @lexeme offset v cs ls hcut' _ ih =>
    intro l hl
    rcases List.mem_cons.mp hl with rfl | hl
    -- The first lexeme stands at the start, and the others stand after its characters.
    · exact ⟨[], v, cs, rfl, hcut', rfl⟩
    · obtain ⟨before, w, rest, rfl, hcut, rfl⟩ := ih l hl
      have hsize : offset + String.utf8Len v + String.utf8Len before =
          offset + String.utf8Len (v ++ before) := by
        rw [String.utf8Len_append, Nat.add_assoc]
      exact ⟨v ++ before, w, rest, (List.append_assoc _ _ _).symm, hcut, by rw [hsize]⟩

theorem le_start (h : Placed offset cs ls) : ∀ l ∈ ls, offset ≤ l.start := by
  intro l hl
  obtain ⟨before, w, rest, -, -, rfl⟩ := h.exists_place l hl
  exact Nat.le_add_right _ _

/-- **Lexemes follow one another.** -/
theorem ordered (h : Placed offset cs ls) : ls.Pairwise fun l l' => l.stop ≤ l'.start := by
  induction h with
  | nil => exact .nil
  | blank _ _ ih => exact ih
  -- The later lexemes are lexemes of a row that starts where this one stops.
  | lexeme _ hrest ih => exact .cons hrest.le_start ih

/-- **A character that no lexeme covers is blank.** -/
theorem isBlank_of_uncovered (h : Placed offset cs ls) {before rest : List Char} {c : Char}
    (hc : cs = before ++ c :: rest)
    (hfree : ∀ l ∈ ls, ¬ (l.start ≤ offset + String.utf8Len before ∧
      offset + String.utf8Len before < l.stop)) : isBlank c = true := by
  induction h generalizing before with
  | nil => simp at hc
  | @blank offset d cs ls hd _ ih =>
    cases before with
    -- The character is the blank itself, or it comes after the blank.
    | nil =>
      obtain ⟨rfl, -⟩ := List.cons.inj hc
      exact hd
    | cons d' before =>
      obtain ⟨rfl, rfl⟩ := List.cons.inj hc
      refine ih rfl ?_
      have hsize : offset + d.utf8Size + String.utf8Len before =
          offset + String.utf8Len (d :: before) := by
        rw [String.utf8Len_cons]
        omega
      rwa [hsize]
  | @lexeme offset w cs ls _ _ ih =>
    -- The character is one of the lexeme's, which covers it, or comes after the lexeme.
    rcases List.append_eq_append_iff.mp hc with ⟨u, rfl, rfl⟩ | ⟨u, rfl, hu⟩
    · refine ih rfl ?_
      have hsize : offset + String.utf8Len w + String.utf8Len u =
          offset + String.utf8Len (w ++ u) := by
        rw [String.utf8Len_append, Nat.add_assoc]
      rw [hsize]
      exact fun l hl => hfree l (List.mem_cons_of_mem _ hl)
    · cases u with
      | nil =>
        -- The character is the first one after the lexeme.
        rw [List.nil_append] at hu
        subst hu
        have hfirst : c :: rest = [] ++ c :: rest := rfl
        refine ih hfirst ?_
        have hsize : offset + String.utf8Len (before ++ []) + String.utf8Len [] =
            offset + String.utf8Len before := by
          rw [List.append_nil]
          rfl
        rw [hsize]
        exact fun l hl => hfree l (List.mem_cons_of_mem _ hl)
      | cons d u =>
        -- The character is inside the lexeme, and so it is covered.
        have hcover : offset + String.utf8Len before <
            offset + String.utf8Len (before ++ d :: u) := by
          have hd := d.utf8Size_pos
          rw [String.utf8Len_append, String.utf8Len_cons]
          omega
        exact absurd ⟨Nat.le_add_right _ _, hcover⟩ (hfree _ List.mem_cons_self)

end Placed

/-- **The lexemes of a source are in their places.** -/
theorem placed_lexemes (source : String) : Placed 0 source.toList (lexemes source) := by
  obtain ⟨ls, -, hplaced, hrun⟩ := Scan.cut_run (lexes_lexemes source) 0 []
  -- The lexemes that are in their places are those that the scan cuts from the start.
  have hls : lexemes source = ls := by
    rw [lexemes, Scan.initial, hrun]
    simp
  rwa [hls]

/-! ### The bytes of a source -/

/-- **The bytes between two characters of a source** are the bytes of the characters between
them. -/
theorem extract_toByteArray {source : String} {before w rest : List Char}
    (h : source.toList = before ++ (w ++ rest)) :
    source.toByteArray.extract (String.utf8Len before)
      (String.utf8Len before + String.utf8Len w) = (String.ofList w).toByteArray := by
  have hsize (v : List Char) : (String.ofList v).toByteArray.size = String.utf8Len v := by
    rw [String.size_toByteArray, String.utf8ByteSize_ofList]
  -- The bytes are those of the three parts, and the part before has as many as the offset says.
  have hsource : source.toByteArray = (String.ofList before).toByteArray ++
      ((String.ofList w).toByteArray ++ (String.ofList rest).toByteArray) := by
    rw [← String.toByteArray_append, ← String.toByteArray_append, ← String.ofList_append,
      ← String.ofList_append, ← h, String.ofList_toList]
  calc source.toByteArray.extract (String.utf8Len before)
        (String.utf8Len before + String.utf8Len w)
    _ = ((String.ofList w).toByteArray ++ (String.ofList rest).toByteArray).extract 0
          (String.utf8Len w) := by
        have hshift := ByteArray.extract_append_size_add
          (a := (String.ofList before).toByteArray)
          (b := (String.ofList w).toByteArray ++ (String.ofList rest).toByteArray)
          (i := 0) (j := String.utf8Len w)
        rw [Nat.add_zero, hsize before] at hshift
        rw [hsource, hshift]
    _ = (String.ofList w).toByteArray := ByteArray.extract_append_eq_left (hsize w).symm

/-! ### Tokens -/

/-- A token has the kind, the text and the span of its lexeme. -/
theorem map_tokensOf (ls : List Lexeme) (names : Interner) :
    (tokensOf ls names).1.map (fun t => (t.kind, t.text, t.span)) =
      ls.map fun l => (l.kind, l.text, l.span) := by
  induction ls generalizing names with
  | nil => rfl
  | cons l ls ih =>
    simp only [tokensOf, List.map_cons, ih]
    rfl

section
variable {source : String} {names : Interner} {t : Token} {l : Lexeme}

/-- A lexeme of a source is inside it, so its offsets fit. -/
theorem span_of_mem_lexemes (h : source.utf8ByteSize < 2 ^ 32) (hl : l ∈ lexemes source) :
    l.span = ⟨l.start, l.stop⟩ ∧ l.stop ≤ source.utf8ByteSize := by
  obtain ⟨before, w, rest, hsource, -, rfl⟩ := (placed_lexemes source).exists_place l hl
  -- The source is at least as long as what comes up to the end of the lexeme.
  have hsize : source.utf8ByteSize =
      String.utf8Len before + (String.utf8Len w + String.utf8Len rest) := by
    rw [← String.utf8Len_toList, hsource, String.utf8Len_append, String.utf8Len_append]
  have hmax : Span.maxOffset = 2 ^ 32 - 1 := rfl
  refine ⟨Span.ofOffsets_of_le (Nat.le_add_right _ _) ?_, ?_⟩
  · simp only
    omega
  · simp only
    omega

/-- **Each token is that of a lexeme.** -/
theorem exists_lexeme_of_mem (ht : t ∈ (tokenize source names).1) :
    ∃ l ∈ lexemes source, l.kind = t.kind ∧ l.text = t.text ∧ l.span = t.span := by
  have hmem := List.mem_map_of_mem (f := fun t : Token => (t.kind, t.text, t.span)) ht
  rw [tokenize, map_tokensOf] at hmem
  obtain ⟨l, hl, heq⟩ := List.mem_map.mp hmem
  simp only [Prod.mk.injEq] at heq
  exact ⟨l, hl, heq⟩

/-- **Each lexeme has a token.** -/
theorem exists_token_of_mem (names : Interner) (hl : l ∈ lexemes source) :
    ∃ t ∈ (tokenize source names).1, t.span = l.span := by
  have hmem := List.mem_map_of_mem (f := fun l : Lexeme => (l.kind, l.text, l.span)) hl
  rw [← map_tokensOf (lexemes source) names] at hmem
  obtain ⟨t, ht, heq⟩ := List.mem_map.mp hmem
  simp only [Prod.mk.injEq] at heq
  exact ⟨t, ht, heq.2.2⟩

/-- **A token stands where its lexeme was cut off.** -/
theorem exists_place_of_mem (h : source.utf8ByteSize < 2 ^ 32)
    (ht : t ∈ (tokenize source names).1) :
    ∃ before w rest, source.toList = before ++ (w ++ rest) ∧ CutsOff w rest ∧
      t.text = String.ofList w ∧
      t.span = ⟨String.utf8Len before, String.utf8Len before + String.utf8Len w⟩ ∧
      String.utf8Len before + String.utf8Len w ≤ source.utf8ByteSize := by
  obtain ⟨l, hl, -, htext, hspan⟩ := exists_lexeme_of_mem ht
  obtain ⟨hoffsets, hle⟩ := span_of_mem_lexemes h hl
  obtain ⟨before, w, rest, hsource, hcut, rfl⟩ := (placed_lexemes source).exists_place l hl
  rw [Nat.zero_add] at htext hspan hoffsets hle
  exact ⟨before, w, rest, hsource, hcut, htext.symm, hspan.symm.trans hoffsets, hle⟩

/-- The spans of the tokens of a source follow one another. -/
theorem ordered_tokenize (source : String) (names : Interner) :
    (tokenize source names).1.Pairwise fun t t' => t.span.stop ≤ t'.span.start := by
  -- The spans of the tokens are those of the lexemes, which are in order.
  have hspans : (tokenize source names).1.map (·.span) = (lexemes source).map (·.span) := by
    have hmap := congrArg (List.map (·.2.2)) (map_tokensOf (lexemes source) names)
    simpa [tokenize, Function.comp_def] using hmap
  have hlexemes : ((lexemes source).map (·.span)).Pairwise fun s s' => s.stop ≤ s'.start := by
    refine List.pairwise_map.mpr ((placed_lexemes source).ordered.imp ?_)
    -- Offsets that are cut down keep their order.
    intro l l' hle
    simp only [Lexeme.span, Span.ofOffsets]
    omega
  rw [← hspans] at hlexemes
  exact List.pairwise_map.mp hlexemes

end

/-- **The tokens of a source lose nothing of it**, if its offsets fit into 32 bits. -/
theorem tokenize_lossless (source : String) (names : Interner)
    (h : source.utf8ByteSize < 2 ^ 32) : LosslesslyCut source (tokenize source names).1 where
  nonempty t ht := by
    obtain ⟨before, w, rest, -, hcut, -, hspan, hle⟩ := exists_place_of_mem h ht
    -- A token has a first character, and so its span is not empty.
    obtain ⟨c, u, rfl, -, -⟩ := hcut.eq_tokenFrom
    have hc := c.utf8Size_pos
    rw [hspan]
    refine ⟨?_, hle⟩
    simp only [String.utf8Len_cons]
    omega
  ordered := ordered_tokenize source names
  bytes t ht := by
    obtain ⟨before, w, rest, hsource, -, htext, hspan, -⟩ := exists_place_of_mem h ht
    rw [hspan, htext]
    exact extract_toByteArray hsource
  blanks before c rest hsource hfree := by
    refine (placed_lexemes source).isBlank_of_uncovered hsource ?_
    -- A lexeme that covers the character would have a token that does.
    intro l hl
    obtain ⟨t, ht, hspan⟩ := exists_token_of_mem names hl
    have huncovered := hfree t ht
    rwa [hspan, (span_of_mem_lexemes h hl).1, ← Nat.zero_add (String.utf8Len before)] at huncovered
  rules t ht := by
    obtain ⟨before, w, rest, hsource, hcut, htext, hspan, -⟩ := exists_place_of_mem h ht
    -- The token is the one that the rules give at its first character.
    obtain ⟨c, u, rfl, hblank, hfrom⟩ := hcut.eq_tokenFrom
    refine ⟨before, c, u ++ rest, hsource, by rw [hspan], hblank, ?_, ?_⟩
    · rw [htext, hfrom]
    · rw [hfrom]
      exact hcut.longestMatch
  kinds t ht := by
    obtain ⟨l, -, hkind, htext, -⟩ := exists_lexeme_of_mem ht
    rw [← hkind, ← htext, Lexeme.kind]
  lone t ht := by
    obtain ⟨l, -, hkind, htext, -⟩ := exists_lexeme_of_mem ht
    rw [← hkind, ← htext, Lexeme.kind]
    exact TokenKind.isLone_ofText l.text

/-- A quote inside a word, a string that breaks off before the end of the line, marks between
words, and a blank of three bytes. -/
theorem tokenize_lossless_quotes :
    let source := "a\"b \"c d\n(x)-1\u2003\"e f\"#g"
    source.utf8ByteSize < 2 ^ 32 ∧
      (tokenize source .initial).1.map (fun t => (t.text, t.span.start, t.span.stop)) =
        [("a\"b", 0, 3), ("\"c d", 4, 8), ("(", 9, 10), ("x", 10, 11), (")", 11, 12),
          ("-1", 12, 14), ("\"e f\"", 17, 22), ("#", 22, 23), ("g", 23, 24)] ∧
      LosslesslyCut source (tokenize source .initial).1 := by
  refine ⟨by decide +kernel, by decide +kernel, ?_⟩
  exact tokenize_lossless _ _ (by decide +kernel)

end Silly
