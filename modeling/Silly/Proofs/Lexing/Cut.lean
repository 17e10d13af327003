import Mathlib.Data.String.Basic
import Silly.Proofs.Lexing.Kind

/-!
# How a source is cut

The rules by which a source is cut into the texts of its lexemes, said as a relation. `Lexes cs ts`
holds if the characters `cs` are cut into the texts `ts`, where the cut before the first character
is free: a word is not going on there, and no quote is open.

The scan cuts every source, and cuts it by these rules (`lexes_lexemes`), and the rules leave it no
choice (`texts_of_lexes`). So whatever is to be known of the texts of a source's lexemes is read off
the rules.
-/

namespace Silly

/-- Characters that may stand between the quotes of a literal. -/
def Unquoted (cs : List Char) : Prop := ∀ c ∈ cs, c ≠ '"' ∧ c ≠ '\n'

/-- Whether a word that ends here was ended rightly: nothing follows, or something that breaks
words. -/
def Apart (cs : List Char) : Prop := ∀ c ∈ cs.head?, isBreak c = true

/-- **The rules of cutting.** -/
inductive Lexes : List Char → List String → Prop
  | nil : Lexes [] []
  | blank {c : Char} {cs : List Char} {ts : List String} :
      isBlank c = true → Lexes cs ts → Lexes (c :: cs) ts
  | mark {c : Char} {cs : List Char} {ts : List String} :
      isMark c = true → Lexes cs ts → Lexes (c :: cs) (c.toString :: ts)
  /-- A string runs through its second quote. -/
  | closed {body cs : List Char} {ts : List String} :
      Unquoted body → Lexes cs ts →
      Lexes ('"' :: (body ++ '"' :: cs)) (String.ofList ('"' :: (body ++ ['"'])) :: ts)
  /-- A string without a second quote breaks off before the end of the line. -/
  | broken {body cs : List Char} {ts : List String} :
      Unquoted body → Lexes cs ts →
      Lexes ('"' :: (body ++ '\n' :: cs)) (String.ofList ('"' :: body) :: ts)
  /-- Or it breaks off at the end of the source. -/
  | unclosed {body : List Char} : Unquoted body → Lexes ('"' :: body) [String.ofList ('"' :: body)]
  | word {c : Char} {w cs : List Char} {ts : List String} :
      c ≠ '"' → (∀ d ∈ c :: w, isBreak d = false) → Apart cs → Lexes cs ts →
      Lexes (c :: (w ++ cs)) (String.ofList (c :: w) :: ts)

/-! ### Places -/

/-- **Where a lexeme ends**: `w` is cut off before the characters `rest`. -/
inductive CutsOff : List Char → List Char → Prop
  | mark {c : Char} {rest : List Char} : isMark c = true → CutsOff [c] rest
  | closed {body rest : List Char} : Unquoted body → CutsOff ('"' :: (body ++ ['"'])) rest
  | unclosed {body rest : List Char} :
      Unquoted body → (∀ c ∈ rest.head?, c = '\n') → CutsOff ('"' :: body) rest
  | word {c : Char} {w rest : List Char} :
      c ≠ '"' → (∀ d ∈ c :: w, isBreak d = false) → Apart rest → CutsOff (c :: w) rest

/-- **The lexemes of a row of characters** that stands at a byte offset: each is where it was cut
off, and blanks are all that is between them. -/
inductive Placed : Nat → List Char → List Lexeme → Prop
  | nil (offset : Nat) : Placed offset [] []
  | blank {offset : Nat} {c : Char} {cs : List Char} {ls : List Lexeme} :
      isBlank c = true → Placed (offset + c.utf8Size) cs ls → Placed offset (c :: cs) ls
  | lexeme {offset : Nat} {w rest : List Char} {ls : List Lexeme} :
      CutsOff w rest → Placed (offset + String.utf8Len w) rest ls →
      Placed offset (w ++ rest) (⟨String.ofList w, offset, offset + String.utf8Len w⟩ :: ls)

/-! ### Rules and scans -/

namespace Scan

/-- The texts of the lexemes of a scan that ends here. -/
def texts (s : Scan) : List String := s.cut.reverse.map (·.text)

/-- A row of characters that break no word is read into the word. -/
theorem run_word {w : List Char} (hw : ∀ d ∈ w, isBreak d = false) (offset start : Nat)
    (read : List Char) (done : List Lexeme) :
    run ⟨offset, .word start read, done⟩ w =
      ⟨offset + String.utf8Len w, .word start (w.reverse ++ read), done⟩ := by
  induction w generalizing offset read with
  | nil => rfl
  | cons d w ih =>
    have hd : (isBlank d || isMark d) = false := hw d List.mem_cons_self
    have hw' : ∀ d' ∈ w, isBreak d' = false := fun d' hd' => hw d' (List.mem_cons_of_mem d hd')
    -- A character of the word takes the scan one further and is kept.
    have hstep : step ⟨offset, .word start read, done⟩ d =
        ⟨offset + d.utf8Size, .word start (d :: read), done⟩ := by
      rw [step]
      simp [hd]
    rw [run_cons, hstep, ih hw']
    simp [Nat.add_assoc, Nat.add_comm]

/-- A row of characters that do not end a string is read into it. -/
theorem run_quoted {body : List Char} (hbody : Unquoted body) (offset start : Nat)
    (read : List Char) (done : List Lexeme) :
    run ⟨offset, .quoted start read, done⟩ body =
      ⟨offset + String.utf8Len body, .quoted start (body.reverse ++ read), done⟩ := by
  induction body generalizing offset read with
  | nil => rfl
  | cons d body ih =>
    obtain ⟨hquote, hline⟩ := hbody d List.mem_cons_self
    have hbody' : Unquoted body := fun d' hd' => hbody d' (List.mem_cons_of_mem d hd')
    -- Only a quote and a line break would take the scan out of the string.
    have hstep : step ⟨offset, .quoted start read, done⟩ d =
        ⟨offset + d.utf8Size, .quoted start (d :: read), done⟩ := by
      rw [step]
      simp [hquote, hline]
    rw [run_cons, hstep, ih hbody']
    simp [Nat.add_assoc, Nat.add_comm]

/-- A string after a free cut is read up to where it may end. -/
theorem run_quote {body : List Char} (hbody : Unquoted body) (offset : Nat) (done : List Lexeme)
    (cs : List Char) :
    run ⟨offset, .gap, done⟩ ('"' :: (body ++ cs)) =
      run ⟨offset + String.utf8Len ('"' :: body), .quoted offset (body.reverse ++ ['"']), done⟩
        cs := by
  have hopen : step ⟨offset, .gap, done⟩ '"' =
      ⟨offset + '"'.utf8Size, .quoted offset ['"'], done⟩ := rfl
  rw [run_cons, hopen, run_append, run_quoted hbody]
  simp [Nat.add_assoc, Nat.add_comm]

/-- Where a word ends rightly, the rest is read as after a free cut. -/
theorem cut_run_of_apart {cs : List Char} (hcs : Apart cs) (offset start : Nat)
    (read : List Char) (done : List Lexeme) :
    (run ⟨offset, .word start read, done⟩ cs).cut =
      (run ⟨offset, .gap, ⟨String.ofList read.reverse, start, offset⟩ :: done⟩ cs).cut := by
  -- The first character that follows cuts the word off, and then it is read as after a free cut.
  cases cs with
  | nil => rfl
  | cons c cs =>
    have hc : (isBlank c || isMark c) = true := hcs c rfl
    rw [run_cons, run_cons, step, step]
    simp [hc, cut]

/-- **A scan cuts by the rules**, and notes where. -/
theorem cut_run {cs : List Char} {ts : List String} (h : Lexes cs ts) (offset : Nat)
    (done : List Lexeme) :
    ∃ ls : List Lexeme, ls.map (·.text) = ts ∧ Placed offset cs ls ∧
      (run ⟨offset, .gap, done⟩ cs).cut = ls.reverse ++ done := by
  -- By the rules. What was cut before is general, since each rule adds to it.
  induction h generalizing offset done with
  | nil => exact ⟨[], rfl, .nil offset, rfl⟩
  | @blank c cs ts hc _ ih =>
    obtain ⟨ls, hts, hplaced, hrun⟩ := ih (offset + c.utf8Size) done
    refine ⟨ls, hts, .blank hc hplaced, ?_⟩
    rw [run_cons, step, fresh]
    simpa [hc] using hrun
  | @mark c cs ts hc _ ih =>
    -- The mark is a lexeme of its own, cut already when the rest is read.
    obtain ⟨ls, rfl, hplaced, hrun⟩ :=
      ih (offset + c.utf8Size) (⟨c.toString, offset, offset + c.utf8Size⟩ :: done)
    have hsize : String.utf8Len [c] = c.utf8Size := by simp
    refine ⟨_, rfl, .lexeme (w := [c]) (.mark hc) (hsize.symm ▸ hplaced), ?_⟩
    rw [run_cons, step, fresh]
    simpa [hc, isBlank_eq_false_of_isMark hc, Char.toString] using hrun
  | @closed body cs ts hbody _ ih =>
    obtain ⟨ls, rfl, hplaced, hrun⟩ := ih (offset + String.utf8Len ('"' :: (body ++ ['"'])))
      (⟨String.ofList ('"' :: (body ++ ['"'])), offset,
        offset + String.utf8Len ('"' :: (body ++ ['"']))⟩ :: done)
    -- The string is the cut and the rest follows it, so that the rule for places applies.
    have hsplit : '"' :: (body ++ '"' :: cs) = '"' :: (body ++ ['"']) ++ cs := by simp
    have hlexeme := Placed.lexeme (.closed hbody) hplaced
    rw [← hsplit] at hlexeme
    -- The second quote is read on top of the body, and belongs to the string.
    have hsize : offset + String.utf8Len ('"' :: body) + '"'.utf8Size =
        offset + String.utf8Len ('"' :: (body ++ ['"'])) := by
      simp only [String.utf8Len_cons, String.utf8Len_append, String.utf8Len_nil]
      omega
    refine ⟨_, rfl, hlexeme, ?_⟩
    rw [run_quote hbody, run_cons, step, hsize]
    simpa using hrun
  | @broken body cs ts hbody _ ih =>
    -- The break is a blank that the scan has read with the string.
    obtain ⟨ls, rfl, hplaced, hrun⟩ := ih (offset + String.utf8Len ('"' :: body) + '\n'.utf8Size)
      (⟨String.ofList ('"' :: body), offset, offset + String.utf8Len ('"' :: body)⟩ :: done)
    have hend : ∀ c ∈ ('\n' :: cs).head?, c = '\n' := fun c hc => (Option.some.inj hc).symm
    refine ⟨_, rfl, .lexeme (w := '"' :: body) (.unclosed hbody hend)
      (.blank (by decide) hplaced), ?_⟩
    rw [run_quote hbody, run_cons, step]
    simpa [cut] using hrun
  | @unclosed body hbody =>
    have hlexeme : Placed offset ('"' :: body ++ []) _ :=
      .lexeme (.unclosed hbody (by simp)) (.nil _)
    -- With nothing left, the scan cuts what is pending.
    rw [List.append_nil] at hlexeme
    have hrun := run_quote hbody offset done []
    rw [List.append_nil, run_nil] at hrun
    refine ⟨_, rfl, hlexeme, ?_⟩
    rw [hrun]
    simp [cut]
  | @word c w cs ts hquote hw hcs _ ih =>
    have hc : (isBlank c || isMark c) = false := hw c List.mem_cons_self
    have hw' : ∀ d ∈ w, isBreak d = false := fun d hd => hw d (List.mem_cons_of_mem c hd)
    obtain ⟨hblank, hmark⟩ := Bool.or_eq_false_iff.mp hc
    obtain ⟨ls, rfl, hplaced, hrun⟩ := ih (offset + String.utf8Len (c :: w))
      (⟨String.ofList (c :: w), offset, offset + String.utf8Len (c :: w)⟩ :: done)
    refine ⟨_, rfl, .lexeme (w := c :: w) (.word hquote hw hcs) hplaced, ?_⟩
    -- The word is read to its end, and then what follows cuts it off.
    have hopen : step ⟨offset, .gap, done⟩ c = ⟨offset + c.utf8Size, .word offset [c], done⟩ := by
      rw [step, fresh]
      simp [hblank, hmark, hquote]
    have hsize : offset + c.utf8Size + String.utf8Len w = offset + String.utf8Len (c :: w) := by
      simp [Nat.add_assoc, Nat.add_comm]
    rw [run_cons, hopen, run_append, run_word hw', cut_run_of_apart hcs, hsize]
    simpa using hrun

/-- The texts that a scan cuts are those of the rules. -/
theorem texts_run {cs : List Char} {ts : List String} (h : Lexes cs ts) (offset : Nat)
    (done : List Lexeme) :
    (run ⟨offset, .gap, done⟩ cs).texts = done.reverse.map (·.text) ++ ts := by
  obtain ⟨ls, rfl, -, hrun⟩ := cut_run h offset done
  simp [texts, hrun]

end Scan

/-! ### The cut of a source -/

/-- A row of characters up to the first with a property, and the rest from it on. -/
theorem exists_span (stops : Char → Bool) (cs : List Char) :
    ∃ w rest, cs = w ++ rest ∧ (∀ c ∈ w, stops c = false) ∧ ∀ c ∈ rest.head?, stops c = true := by
  refine ⟨cs.takeWhile (!stops ·), cs.dropWhile (!stops ·),
    List.takeWhile_append_dropWhile.symm, ?_, ?_⟩
  · intro c hc
    simpa using List.all_eq_true.mp List.all_takeWhile c hc
  · intro c hc
    have hnot := List.head?_dropWhile_not (!stops ·) cs
    rw [hc] at hnot
    simpa using hnot

/-- **Every source is cut.** -/
theorem exists_lexes (cs : List Char) : ∃ ts, Lexes cs ts := by
  cases cs with
  | nil => exact ⟨[], .nil⟩
  | cons c cs =>
    by_cases hquote : c = '"'
    · -- A string ends at its second quote, at the end of the line or at the end of the source.
      subst hquote
      obtain ⟨body, rest, rfl, hbody, hrest⟩ := exists_span (fun d => d = '"' || d = '\n') cs
      have hplain : Unquoted body := fun d hd => by simpa using hbody d hd
      -- Which of the three it is, the character after the body says.
      cases rest with
      | nil =>
        rw [List.append_nil]
        exact ⟨_, .unclosed hplain⟩
      | cons d rest =>
        obtain ⟨ts, hts⟩ := exists_lexes rest
        have hd : d = '"' ∨ d = '\n' := by simpa using hrest d rfl
        rcases hd with rfl | rfl
        · exact ⟨_, .closed hplain hts⟩
        · exact ⟨_, .broken hplain hts⟩
    · cases hc : isBreak c with
      -- A character that breaks words is a blank or a mark.
      | true =>
        obtain ⟨ts, hts⟩ := exists_lexes cs
        rcases Bool.or_eq_true_iff.mp hc with hblank | hmark
        · exact ⟨_, .blank hblank hts⟩
        · exact ⟨_, .mark hmark hts⟩
      | false =>
        -- A word goes on to the first character that breaks it.
        obtain ⟨w, rest, rfl, hw, hrest⟩ := exists_span isBreak cs
        obtain ⟨ts, hts⟩ := exists_lexes rest
        refine ⟨_, .word hquote ?_ hrest hts⟩
        simpa [hc] using hw
termination_by cs.length
decreasing_by all_goals simp_all <;> omega

/-- **The rules leave no choice**: the texts of a source's lexemes are the ones that they give. -/
theorem texts_of_lexes {source : String} {ts : List String} (h : Lexes source.toList ts) :
    (lexemes source).map (·.text) = ts :=
  Scan.texts_run h 0 []

/-- **A source is cut by the rules.** -/
theorem lexes_lexemes (source : String) :
    Lexes source.toList ((lexemes source).map (·.text)) := by
  obtain ⟨ts, hts⟩ := exists_lexes source.toList
  rwa [texts_of_lexes hts]

/-! ### String literals -/

/-- **A string literal holds no quote and no line break between its quotes.** -/
theorem Lexes.string_inv {cs : List Char} {ts : List String} (h : Lexes cs ts) {s : String}
    (hs : s ∈ ts) (hkind : TokenKind.ofText s = .string) :
    ∃ body, Unquoted body ∧ s = String.ofList ('"' :: (body ++ ['"'])) := by
  obtain ⟨w, hw, hlast⟩ := TokenKind.ofText_eq_string hkind
  -- A string that broke off does not end in a quote.
  have hopen {body : List Char} (hbody : Unquoted body) : s ≠ String.ofList ('"' :: body) := by
    rintro rfl
    obtain rfl : body = w := by simpa using hw
    exact (hbody '"' (List.mem_of_getLast? hlast)).1 rfl
  induction h with
  | nil => cases hs
  | blank _ _ ih => exact ih hs
  | @mark c _ _ hc _ ih =>
    rcases List.mem_cons.mp hs with rfl | hs
    · obtain ⟨rfl, -⟩ : c = '"' ∧ w = [] := by simpa [Char.toString, eq_comm] using hw
      exact absurd hc (by decide)
    · exact ih hs
  | closed hbody _ ih =>
    rcases List.mem_cons.mp hs with rfl | hs
    · exact ⟨_, hbody, rfl⟩
    · exact ih hs
  | broken hbody _ ih =>
    rcases List.mem_cons.mp hs with rfl | hs
    · exact absurd rfl (hopen hbody)
    · exact ih hs
  | unclosed hbody => exact absurd (List.mem_singleton.mp hs) (hopen hbody)
  | word hquote _ _ _ ih =>
    rcases List.mem_cons.mp hs with rfl | hs
    · simp [hquote] at hw
    · exact ih hs

end Silly
