import Silly.Proofs.Display.Reread
import Silly.Proofs.Grammar.Viable
import Silly.Proofs.Lexing.Concat

/-!
# Programs put one after another

Where a statement ends is told by its last token and not by what comes after it, and where a
statement has ended at the top level the parser remembers nothing of it. So a source that is a program
may be followed by any other source. What comes after it is read as if it came first, and all that
changes is the places.

A program of two parts is found by deriving it (`exists_derives_of_parse`): each part is derived from
its own tokens, with the names of the whole. An error of the second part is found by what is due
(`Goal.advanceAll_moved`), which is nothing where the second part starts.
-/

namespace Silly

variable {a b source : String} {names names' before after : Interner} {p q : Program}
  {ts : List Token} {t : Token} {gs : List Goal} {k : Nat} {e : ParseError}

/-! ### Errors in another place -/

/-- The same error `k` bytes further on. -/
def ParseError.moved (k : Nat) (e : ParseError) : ParseError :=
  match e.span? with
  | some span => e.movedTo (span.moved k)
  | none => e

theorem ParseError.IsAbout.movedTo_eq (h : e.IsAbout t) : e.movedTo (t.moved k).span = e.moved k := by
  rw [moved, h.1]
  rfl

namespace Goal

/-- **One token in another place** leaves the same due, or the error moves with it. -/
theorem advance_moved : advance (t.moved k) gs = (advance t gs).mapError (·.moved k) := by
  have hface : (t.moved k).face = t.face := rfl
  -- What is left due depends on kind and text, so only an error can tell the place.
  rw [advance_of_face hface]
  cases h : advance t gs with
  | ok gs' => rfl
  | error e => exact congrArg Except.error (isAbout_of_advance h).movedTo_eq

/-- **A row of tokens in another place** leaves the same due, or fails with the same error there. -/
theorem advanceAll_moved :
    advanceAll gs (ts.map (·.moved k)) = (advanceAll gs ts).mapError (·.moved k) := by
  -- By induction on the tokens. The first error ends both rows.
  induction ts generalizing gs with
  | nil => rfl
  | cons t ts ih =>
    rw [List.map_cons, advanceAll_cons, advanceAll_cons, advance_moved]
    cases advance t gs with
    | error e => rfl
    | ok gs' => exact ih

/-- What is due does not depend on the names of the tokens. -/
theorem advanceAll_tokensOf (ls : List Lexeme) (names names' : Interner) :
    advanceAll gs (tokensOf ls names).1 = advanceAll gs (tokensOf ls names').1 := by
  -- By induction on the lexemes, as the names of one token depend on those before it.
  induction ls generalizing gs names names' with
  | nil => rfl
  | cons l ls ih =>
    have hadvance : advance (l.token names).1 gs = advance (l.token names').1 gs := rfl
    simp only [tokensOf, advanceAll_cons, hadvance]
    cases advance (l.token names').1 gs with
    | error e => rfl
    | ok gs' => exact ih _ _

/-- What a reading fails with in another place is its error, moved. -/
theorem failure_mapError_moved {r : Except ParseError (List Goal)} (h : failure r = some e) :
    failure (r.mapError (·.moved k)) = some (e.moved k) := by
  cases r with
  | error e' =>
    rw [failure, Option.some.injEq] at h
    rw [← h]
    rfl
  | ok gs =>
    -- The source ends too early, and the error names no place.
    obtain ⟨g, hg, rfl⟩ := Option.map_eq_some_iff.mp h
    exact Option.map_eq_some_iff.mpr ⟨g, hg, rfl⟩

end Goal

/-! ### Two sources -/

/-- What the tokens of a source that is read derive, with the names that the reading leaves. -/
theorem derives_of_parse (h : parse source names = (.ok p, names')) (before : Interner) :
    DerivesProgram names'.nameOf (tokenize source before).1 p := by
  have hp := parse_eq_ok_iff.mp (congrArg Prod.fst h)
  rw [h] at hp
  exact hp.of_faces (faces_tokenize source before names)

/-- **The tokens of a source that is read** derive an alike tree with every table of names that is
settled for them. -/
theorem exists_derives_of_parse (h : parse source names = (.ok p, names')) {before : Interner}
    (hsettled : ∀ t ∈ (tokenize source before).1, t.Settled after) :
    ∃ p', DerivesProgram after.nameOf (tokenize source before).1 p' ∧
      ProgramAlike (names'.SameText after) p p' :=
  (derives_of_parse h before).exists_alike fun t ht =>
    (settled_of_parse h before t ht).relates (hsettled t ht)

theorem map_face_moved (k : Nat) (ts : List Token) :
    (ts.map (·.moved k)).map (·.face) = ts.map (·.face) := by
  rw [List.map_map]
  rfl

/-- **What two rows of tokens derive**, the row derives that has the second in another place. -/
theorem DerivesProgram.append_moved {name : String → Name} {us : List Token}
    (h : DerivesProgram name ts p) (h' : DerivesProgram name us q) :
    DerivesProgram name (ts ++ us.map (·.moved k)) (p ++ q) :=
  h.append (h'.of_faces (map_face_moved k us))

/-- **Sources compose.** With a line break between them, the tokens of two sources follow each other,
those of the second further on by the length of the first and by one. Names are given as they are in
one source after the other, and whatever names are given, the kinds, the texts and the spans are
these. If the first source is a program, then so are the two together if the second one is, and their
tree is that of the first followed by that of the second, each name having the same text. If the
second source is none, then the two together fail with its error, further on by as much. -/
theorem sources_compose (h : (lineJoin a b).utf8ByteSize < 2 ^ 32) :
    (∀ names, tokenize (lineJoin a b) names =
      ((tokenize a names).1 ++
          (tokenize b (tokenize a names).2).1.map (·.moved (a.utf8ByteSize + 1)),
        (tokenize b (tokenize a names).2).2)) ∧
    (∀ names before after,
      (tokenize (lineJoin a b) names).1.map (fun t => (t.kind, t.text, t.span)) =
        (tokenize a before).1.map (fun t => (t.kind, t.text, t.span)) ++
          (tokenize b after).1.map fun t => (t.kind, t.text, t.span.moved (a.utf8ByteSize + 1))) ∧
    ∀ p before before', parse a before = (.ok p, before') → ∀ names after,
      (∀ q after', parse b after = (.ok q, after') →
        ∃ p' q' names', parse (lineJoin a b) names = (.ok (p' ++ q'), names') ∧
          ProgramAlike (before'.SameText names') p p' ∧
          ProgramAlike (after'.SameText names') q q') ∧
      ∀ e, (parse b after).1 = .error e →
        (parse (lineJoin a b) names).1 = .error (e.moved (a.utf8ByteSize + 1)) := by
  have htokens := tokenize_lineJoin h
  -- The tokens are those of the two sources, and all the rest follows from that.
  refine ⟨htokens, fun names before after => ?_, fun p before before' hp names after => ⟨?_, ?_⟩⟩
  · -- Two tables give the tokens of one source nothing different but their names.
    have hany (source : String) (one other : Interner) :
        (tokenize source one).1.map (fun t => (t.kind, t.text, t.span)) =
          (tokenize source other).1.map fun t => (t.kind, t.text, t.span) :=
      (map_tokensOf _ one).trans (map_tokensOf _ other).symm
    have hmoved := congrArg (List.map fun x : TokenKind × String × Span =>
      (x.1, x.2.1, x.2.2.moved (a.utf8ByteSize + 1))) (hany b (tokenize a names).2 after)
    rw [List.map_map, List.map_map] at hmoved
    rw [htokens, List.map_append, hany a names before, List.map_map]
    exact congrArg _ hmoved
  -- Two programs. Each part is derived by its own tokens with any names, the second one in another
  -- place.
  · intro q after' hq
    have hall (name : String → Name) (p' q' : Program)
        (hp' : DerivesProgram name (tokenize a names).1 p')
        (hq' : DerivesProgram name (tokenize b (tokenize a names).2).1 q') :
        DerivesProgram name (tokenize (lineJoin a b) names).1 (p' ++ q') := by
      rw [htokens]
      exact hp'.append_moved hq'
    -- Some tree is read, so all names are settled, and the tree that is read is one of two parts.
    obtain ⟨p₀, hp₀⟩ :=
      (derives_of_parse hp names).exists_of_name (parse (lineJoin a b) names).2.nameOf
    obtain ⟨q₀, hq₀⟩ := (derives_of_parse hq (tokenize a names).2).exists_of_name
      (parse (lineJoin a b) names).2.nameOf
    have hread := parse_eq_of_ok (parse_eq_ok_iff.mpr (hall _ _ _ hp₀ hq₀))
    have hsettled := settled_of_parse hread names
    rw [htokens] at hsettled
    obtain ⟨hfirst, hsecond⟩ := List.forall_mem_append.mp hsettled
    obtain ⟨p', hp', halike⟩ := exists_derives_of_parse hp hfirst
    obtain ⟨q', hq', halike'⟩ := exists_derives_of_parse hq
      fun t ht => hsecond (t.moved _) (List.mem_map_of_mem ht)
    exact ⟨p', q', _, parse_eq_of_ok (parse_eq_ok_iff.mpr (hall _ _ _ hp' hq')), halike, halike'⟩
  -- A program and a source that is none. Names do not matter to what is due.
  · intro e he
    have hdue : Goal.advanceAll [] (tokenize a names).1 = .ok [] := by
      rw [tokenize, Goal.advanceAll_tokensOf _ names before]
      exact exists_parse_eq_ok_iff.mp ⟨p, congrArg Prod.fst hp⟩
    have hfailure := parse_eq_error_iff.mp he
    rw [tokenize, Goal.advanceAll_tokensOf _ after (tokenize a names).2] at hfailure
    -- Nothing is due where the second source starts.
    refine parse_eq_error_iff.mpr ?_
    rw [htokens, Goal.advanceAll_append, hdue]
    show Goal.failure (Goal.advanceAll [] (List.map _ _)) = _
    rw [Goal.advanceAll_moved]
    exact Goal.failure_mapError_moved hfailure

/-- A word at the end of the first source, and a string in the second one that is not closed. -/
theorem sources_compose_unclosed :
    (lineJoin "print x" "y gets \"q").utf8ByteSize < 2 ^ 32 ∧
      (parse (lineJoin "print x" "y gets \"q") .initial).1 =
        .error (.unexpectedToken "\"q" .expression ⟨15, 17⟩) := by
  have hsize : (lineJoin "print x" "y gets \"q").utf8ByteSize < 2 ^ 32 := by decide +kernel
  -- That the first source is a program, and how the second one fails, is computed from the goals.
  have hfirst : ∃ p, (parse "print x" .initial).1 = .ok p :=
    exists_parse_eq_ok_iff.mpr (Goal.failure_eq_none_iff.mp (by decide +kernel))
  obtain ⟨p, hp⟩ := hfirst
  have hsecond : (parse "y gets \"q" .initial).1 =
      .error (.unexpectedToken "\"q" .expression ⟨7, 9⟩) :=
    parse_eq_error_iff.mpr (by decide +kernel)
  obtain ⟨-, hfails⟩ :=
    (sources_compose hsize).2.2 p .initial _ (parse_eq_of_ok hp) .initial .initial
  exact ⟨hsize, hfails _ hsecond⟩

end Silly
