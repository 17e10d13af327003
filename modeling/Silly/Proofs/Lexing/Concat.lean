import Silly.Proofs.Lexing.Lossless

/-!
# Sources put one after another

The end of a line ends whatever a scan is in the middle of: a word, a string that has not been
closed, and no less a gap. So a scan that has read a line break remembers nothing of what it has read
but the offset and the lexemes cut so far (`Scan.step_newline`).

A scan goes on the same wherever it starts. With another offset at the start, and with other lexemes
cut before, it cuts the same texts in other places (`Scan.run_moved`). Both together say that two
sources with a line break between them are cut one after the other, and that only the places of the
second one change (`lexemes_lineJoin`).
-/

namespace Silly

/-! ### The same thing in another place -/

/-- The span `k` bytes further on. -/
def Span.moved (k : Nat) (s : Span) : Span := ⟨s.start + k, s.stop + k⟩

/-- The lexeme `k` bytes further on. -/
def Lexeme.moved (k : Nat) (l : Lexeme) : Lexeme := ⟨l.text, l.start + k, l.stop + k⟩

/-- The token `k` bytes further on. -/
def Token.moved (k : Nat) (t : Token) : Token := { t with span := t.span.moved k }

namespace Scan

variable {s : Scan} {k : Nat} {before : List Lexeme}

/-- **The same scan in another place**: `k` bytes further on, and after the lexemes `before`, the
newest of which comes first. -/
def moved (k : Nat) (before : List Lexeme) (s : Scan) : Scan where
  offset := s.offset + k
  pending :=
    match s.pending with
    | .gap => .gap
    | .word start read => .word (start + k) read
    | .quoted start read => .quoted (start + k) read
  done := s.done.map (·.moved k) ++ before

/-- What a moved scan would have cut at the end is what the scan would have, moved. -/
theorem cut_moved : (s.moved k before).cut = s.cut.map (·.moved k) ++ before := by
  obtain ⟨offset, pending, done⟩ := s
  cases pending <;> rfl

/-- A word, a string or a mark that begins at a free cut begins in the other place. -/
theorem fresh_moved (offset : Nat) (done : List Lexeme) (c : Char) :
    fresh (offset + k) (done.map (·.moved k) ++ before) c = (fresh offset done c).moved k before := by
  have hnext : offset + k + c.utf8Size = offset + c.utf8Size + k := by omega
  simp only [fresh, hnext]
  split_ifs <;> rfl

/-- **One character** is read the same in both places. -/
theorem step_moved (c : Char) : (s.moved k before).step c = (s.step c).moved k before := by
  obtain ⟨offset, pending, done⟩ := s
  have hnext : offset + k + c.utf8Size = offset + c.utf8Size + k := by omega
  cases pending with
  -- A character that ends the word is read as one after a free cut, with the word cut before it.
  | gap => exact fresh_moved offset done c
  | word start read =>
    simp only [step, moved, hnext]
    split_ifs
    · exact fresh_moved offset (cut ⟨offset, .word start read, done⟩) c
    · rfl
  | quoted start read =>
    simp only [step, moved, hnext]
    split_ifs <;> rfl

/-- **The same scan** goes on in both places, over any row of characters. -/
theorem run_moved (cs : List Char) : (s.moved k before).run cs = (s.run cs).moved k before := by
  induction cs generalizing s with
  | nil => rfl
  | cons c cs ih => rw [run_cons, run_cons, step_moved, ih]

/-! ### Offsets -/

theorem offset_fresh (offset : Nat) (done : List Lexeme) (c : Char) :
    (fresh offset done c).offset = offset + c.utf8Size := by
  unfold fresh
  dsimp only
  split_ifs <;> rfl

/-- A character takes the scan as far on as it is long. -/
theorem offset_step (c : Char) : (s.step c).offset = s.offset + c.utf8Size := by
  obtain ⟨offset, pending, done⟩ := s
  cases pending with
  | gap => exact offset_fresh offset done c
  | word start read =>
    simp only [step]
    split_ifs
    · exact offset_fresh offset _ c
    · rfl
  | quoted start read =>
    simp only [step]
    split_ifs <;> rfl

/-- A scan is as far on as the characters that it has read are long. -/
theorem offset_run (cs : List Char) : (s.run cs).offset = s.offset + String.utf8Len cs := by
  induction cs generalizing s with
  | nil => rfl
  | cons c cs ih => rw [run_cons, ih, offset_step, String.utf8Len_cons, Nat.add_right_comm, Nat.add_assoc]

/-! ### The end of a line -/

/-- **A line break ends what the scan is in the middle of.** -/
theorem step_newline (s : Scan) :
    s.step '\n' = initial.moved (s.offset + 1) s.cut := by
  -- The scan that starts afresh in the other place: in a gap, with what was cut before.
  have hstart : initial.moved (s.offset + 1) s.cut = ⟨s.offset + 1, .gap, s.cut⟩ := by
    simp [initial, moved]
  rw [hstart]
  obtain ⟨offset, pending, done⟩ := s
  -- Whatever the scan was in the middle of, the break cuts it off and is dropped.
  cases pending <;> rfl

end Scan

/-! ### Lexemes and tokens -/

/-- Two sources with a line break between them. -/
def lineJoin (a b : String) : String := a ++ "\n" ++ b

theorem utf8ByteSize_lineJoin (a b : String) :
    (lineJoin a b).utf8ByteSize = b.utf8ByteSize + (a.utf8ByteSize + 1) := by
  have hline : "\n".utf8ByteSize = 1 := rfl
  rw [lineJoin, String.utf8ByteSize_append, String.utf8ByteSize_append, hline, Nat.add_comm]

/-- **Two sources with a line break between them** are cut one after the other. -/
theorem lexemes_lineJoin (a b : String) :
    lexemes (lineJoin a b) = lexemes a ++ (lexemes b).map (·.moved (a.utf8ByteSize + 1)) := by
  -- The line break is read where the first source ends.
  have hoffset : (Scan.initial.run a.toList).offset = a.utf8ByteSize := by
    rw [Scan.offset_run, Scan.initial, Nat.zero_add, String.utf8Len_toList]
  have hline : "\n".toList = ['\n'] := rfl
  -- The first source's scan, the break, and then the second source's scan in its new place.
  rw [lexemes, lineJoin, String.toList_append, String.toList_append, hline, List.append_assoc,
    List.singleton_append, Scan.run_append, Scan.run_cons, Scan.step_newline, hoffset,
    Scan.run_moved, Scan.cut_moved, List.reverse_append, ← List.map_reverse]
  rfl

/-- **Tokens are named one after another**, and those of the second row after all those of the
first. -/
theorem tokensOf_append (ls ls' : List Lexeme) (names : Interner) :
    tokensOf (ls ++ ls') names =
      ((tokensOf ls names).1 ++ (tokensOf ls' (tokensOf ls names).2).1,
        (tokensOf ls' (tokensOf ls names).2).2) := by
  -- The names grow along the row, so the induction is for any names.
  induction ls generalizing names with
  | nil => rfl
  | cons l ls ih => simp only [List.cons_append, tokensOf, ih]

/-- A lexeme of a source is moved with its span if the end of the source still has an offset in the
new place. -/
theorem span_moved_of_mem {source : String} {k : Nat} {l : Lexeme}
    (h : source.utf8ByteSize + k < 2 ^ 32) (hl : l ∈ lexemes source) :
    (l.moved k).span = l.span.moved k := by
  have hsize : source.utf8ByteSize < 2 ^ 32 := by omega
  obtain ⟨hspan, hstop⟩ := span_of_mem_lexemes hsize hl
  -- Spans do not wrap round, so the start of a lexeme is not behind its end.
  have hle : l.start ≤ l.stop := by
    obtain ⟨before, w, rest, -, -, rfl⟩ := (placed_lexemes source).exists_place l hl
    exact Nat.le_add_right _ _
  -- Moved, the end still has an offset, and so the span is not clamped in either place.
  have hfits : l.stop + k ≤ Span.maxOffset := by
    have hmax : Span.maxOffset = 2 ^ 32 - 1 := rfl
    omega
  rw [hspan]
  exact Span.ofOffsets_of_le (Nat.add_le_add_right hle k) hfits

/-- Lexemes that are moved with their spans give tokens that are moved. -/
theorem tokensOf_moved {ls : List Lexeme} {k : Nat}
    (h : ∀ l ∈ ls, (l.moved k).span = l.span.moved k) (names : Interner) :
    tokensOf (ls.map (·.moved k)) names =
      ((tokensOf ls names).1.map (·.moved k), (tokensOf ls names).2) := by
  induction ls generalizing names with
  | nil => rfl
  | cons l ls ih =>
    obtain ⟨hl, hls⟩ := List.forall_mem_cons.mp h
    -- The kind and the name of a token depend on its text alone, and only the span is in another place.
    have htoken : (l.moved k).token names = ((l.token names).1.moved k, (l.token names).2) := by
      simp only [Lexeme.token, hl]
      rfl
    simp only [List.map_cons, tokensOf, htoken, ih hls]

/-- **The tokens of two sources with a line break between them** are those of the first and, further
on by its length and by one, those of the second. -/
theorem tokenize_lineJoin {a b : String} (h : (lineJoin a b).utf8ByteSize < 2 ^ 32)
    (names : Interner) :
    tokenize (lineJoin a b) names =
      ((tokenize a names).1 ++
          (tokenize b (tokenize a names).2).1.map (·.moved (a.utf8ByteSize + 1)),
        (tokenize b (tokenize a names).2).2) := by
  rw [utf8ByteSize_lineJoin] at h
  rw [tokenize, lexemes_lineJoin, tokensOf_append, tokensOf_moved fun l => span_moved_of_mem h]
  rfl

end Silly
