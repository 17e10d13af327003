import Silly.Proofs.Grammar.Soundness
import Silly.Proofs.Grammar.Watch

/-!
# What the parser accepts

The tokens that derive a program are read as that program (`readAll_program`). What a reading comes to is
one of the things that can be watched of it (`Watch.result`), and a statement that is finished adds nothing
of its own to that.

Together with soundness this says what the parser accepts: exactly the programs that the tokens
derive (`readAll_eq_ok_iff`, `parse_eq_ok_iff`).
-/

namespace Silly

variable {names : Interner} {before : List Stmt} {t : Token} {ts : List Token}

/-- **Reading on after a verdict.** -/
def Verdict.resume (names : Interner) (before : List Stmt) (ts : List Token) :
    Verdict → Except ParseError Program
  | .more p => readAll names p before ts
  | .complete s => readAll names .start (s :: before) ts
  | .reject e | .decline e => .error e

theorem readAll_cons {p : Fragment} :
    readAll names p before (t :: ts) = (p.judge names t).resume names before ts := by
  rw [readAll]
  cases p.judge names t <;> rfl

/-- **What a reading comes to** can be watched. -/
def Watch.result (names : Interner) : Watch names (Except ParseError Program) where
  read p before _ ts := readAll names p before ts
  turn turn before _ ts := turn.verdict.resume names before ts
  finish _ result := result
  read_cons _ _ _ _ _ := readAll_cons
  turn_more _ _ _ _ _ _ := rfl
  turn_unary _ _ _ _ _ _ _ := rfl
  turn_binary _ _ _ _ _ _ _ := rfl
  turn_complete _ _ _ _ _ _ := rfl
  turn_push _ _ _ _ _ _ _ _ := rfl
  turn_congr hverdict _ _ _ _ := by rw [hverdict]

/-- What a reading comes to does not tell the statements that were finished on the way. -/
theorem Watch.nodes_result {all : List Token} (ns : List Node) (result : Except ParseError Program) :
    (Watch.result names).nodes all ns result = result := by
  induction ns with
  | nil => rfl
  | cons n ns ih => exact ih

/-- **What is derived is read.** -/
theorem readAll_program {us : List Token} {p : Program} (h : DerivesProgram names.nameOf us p) :
    readAll names .start before us = .ok (before.reverse ++ p) :=
  -- The statements of the program are read first, and then nothing is left.
  calc readAll names .start before us
      = (Watch.result names).nodes us (blockNodes 0 p) (readAll names .start (p.reverse ++ before) []) :=
        (Watch.result names).read_program h rfl
    _ = readAll names .start (p.reverse ++ before) [] := Watch.nodes_result _ _
    _ = .ok (before.reverse ++ p) := by simp [readAll, Fragment.start, Fragment.atEnd]

/-- **Reading succeeds with just the programs that the tokens derive.** -/
theorem readAll_eq_ok_iff {p : Program} :
    readAll names .start [] ts = .ok p ↔ DerivesProgram names.nameOf ts p := by
  constructor
  -- Nothing was read before, so what is derived is derived by the tokens that are read.
  · intro h
    have hderives : DerivesProgram names.nameOf ([] ++ [] ++ ts) p :=
      readAll_derives .nil .start h
    exact hderives
  · intro h
    exact readAll_program h

@[simp] theorem length_tokensOf (ls : List Lexeme) (names : Interner) :
    (tokensOf ls names).1.length = ls.length := by
  induction ls generalizing names with
  | nil => rfl
  | cons l ls ih => simp [tokensOf, ih]

/-- Only a token that is declined is not taken. -/
theorem Reader.taken_feed (r : Reader) (p : Fragment) (l : Lexeme)
    (h : ∀ e, (r.feed p l).1 ≠ .decline e) : (r.feed p l).2.taken = r.taken + 1 := by
  unfold feed at h ⊢
  dsimp only at h ⊢
  split
  · next e hv =>
    rw [hv] at h
    exact absurd rfl (h e)
  · rfl

/-- A parser that has read a program has taken every lexeme. -/
theorem Parser.programFrom_consumes {p : Fragment} {r : Reader} {ls : List Lexeme} {prog : Program}
    (h : (programFrom p before r ls).1 = .ok prog) :
    (programFrom p before r ls).2.rest = [] ∧
      (programFrom p before r ls).2.reader.taken = r.taken + ls.length := by
  -- By induction on the lexemes. A reading that succeeds takes each of them, whichever way it goes on.
  induction ls generalizing p before r with
  | nil =>
    rw [programFrom] at h ⊢
    split at h
    · simp [Reader.note]
    · cases h
  | cons l ls ih =>
    have htaken := r.taken_feed p l
    rw [programFrom] at h ⊢
    split at h
    · next hr =>
      rw [hr] at htaken
      obtain ⟨hrest, hlen⟩ := ih h
      exact ⟨hrest, by rw [hlen, htaken (by simp), List.length_cons]; omega⟩
    · next hr =>
      rw [hr] at htaken
      obtain ⟨hrest, hlen⟩ := ih h
      exact ⟨hrest, by rw [hlen, htaken (by simp), List.length_cons]; omega⟩
    -- An error is no program, so these two do not come up.
    · cases h
    · cases h

/-- **A source is read into just the programs that its tokens derive.** -/
theorem parse_eq_ok_iff {source : String} {p : Program} :
    (parse source names).1 = .ok p ↔
      DerivesProgram (parse source names).2.nameOf (tokenize source names).1 p := by
  rw [parse_eq_readAll]
  exact readAll_eq_ok_iff

/-- **The parser accepts exactly its grammar.** It gives just the program that the tokens of the
source derive, of which there is then only one, and it has taken every token of the source. It fails
with an error just where the tokens derive no program, whatever the names. -/
theorem parse_ok_iff_derives (source : String) (names : Interner) :
    (∀ p, (parse source names).1 = .ok p ↔
      DerivesProgram (parse source names).2.nameOf (tokenize source names).1 p) ∧
    ((∃ name p, DerivesProgram name (tokenize source names).1 p) ↔
      (∃! p, DerivesProgram (parse source names).2.nameOf (tokenize source names).1 p) ∧
        (Parser.ofSource source names).program.2.rest = [] ∧
        (Parser.ofSource source names).program.2.reader.taken =
          (tokenize source names).1.length) ∧
    ((∃ e, (parse source names).1 = .error e) ↔
      ∀ name p, ¬ DerivesProgram name (tokenize source names).1 p) := by
  refine ⟨fun p => parse_eq_ok_iff, ⟨?_, ?_⟩, ⟨?_, ?_⟩⟩
  · rintro ⟨name, p, hp⟩
    -- With the names of the parser, the same tokens derive a program of the same shape.
    obtain ⟨q, hq⟩ := hp.exists_of_name (parse source names).2.nameOf
    have hok := parse_eq_ok_iff.mpr hq
    refine ⟨⟨q, hq, fun q' hq' => ?_⟩, ?_⟩
    · -- A parser gives one answer, so there is one derivable tree.
      have hok' := parse_eq_ok_iff.mpr hq'
      rw [hok] at hok'
      exact (Except.ok.inj hok').symm
    · have htaken := Parser.programFrom_consumes hok
      refine ⟨htaken.1, htaken.2.trans ?_⟩
      simp [Parser.ofSource, Reader.ofNames, tokenize]
  · rintro ⟨⟨p, hp, -⟩, -⟩
    exact ⟨_, p, hp⟩
  -- A program would be read, with the names of the parser, so there was no error.
  · rintro ⟨e, he⟩ name p hp
    obtain ⟨q, hq⟩ := hp.exists_of_name (parse source names).2.nameOf
    have hok := parse_eq_ok_iff.mpr hq
    rw [he] at hok
    cases hok
  -- A reading without an error is one with a program, which the tokens would derive.
  · intro hnone
    cases hresult : (parse source names).1 with
    | error e => exact ⟨e, rfl⟩
    | ok p => exact absurd (parse_eq_ok_iff.mp hresult) (hnone _ p)

end Silly
