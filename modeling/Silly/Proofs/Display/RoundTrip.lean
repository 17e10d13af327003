import Silly.Proofs.Display.Spelling

/-!
# Displayed programs are read back

The lines of a well-formed statement are cut, one by one, into texts that derive the statement
(`Stmt.shows`), at whatever depth they stand, as no rule of cutting cares for the blanks in front of a
line or for the break after it. So the display of a well-formed program is cut into texts that derive
the program. The tokens of the display have just these texts, and the kinds that follow from them, so
they derive it too, and what they derive is what the parser gives.
-/

namespace Silly

/-! ### Lines -/

namespace Spells

variable {s : String} {ts : List String}

/-- The blanks in front of a line change nothing. -/
theorem line (depth : Nat) (h : Spells s ts) : Spells (line depth s) ts := by
  intro cs us hcs hus
  -- By induction on the blanks, each of which is skipped.
  have hblanks (n : Nat) : Lexes (List.replicate n ' ' ++ (s.toList ++ cs)) (ts ++ us) := by
    induction n with
    | zero => exact h cs us hcs hus
    | succ n ih => exact .blank (by decide) ih
  simpa [Silly.line, indent] using hblanks (2 * depth)

/-- A word, a text and another word. -/
theorem header {k w : String} (hk : Spells k [k]) (h : Spells s ts) (hw : Spells w [w]) :
    Spells (k ++ " " ++ s ++ (" " ++ w)) (k :: (ts ++ [w])) := by
  rw [String.append_assoc, String.append_assoc]
  exact hk.space (h.space hw)

/-- The words of an assignment. -/
theorem gets {x : String} (hx : Spells x [x]) (h : Spells s ts) :
    Spells (x ++ " gets " ++ s) (x :: Keyword.gets.text :: ts) := by
  have hgets : " gets " = " " ++ (Keyword.gets.text ++ " ") := rfl
  rw [hgets]
  simp only [String.append_assoc]
  exact hx.space ((keyword .gets).space h)

end Spells

/-! ### Statements -/

section Shows

variable {names : Interner} {name : String → Name}

mutual
/-- **The lines of a well-formed statement are cut into texts that derive it.** -/
theorem Stmt.shows (hname : names.NamedBy name) (depth : Nat) : ∀ s : Stmt, s.WellFormed names →
    ∃ ts, SpellsAll (s.lines names.text depth) ts ∧ DerivesStmt name (ts.map .spelling) s
  -- A line is cut where its words end, and the texts are those of the rule for the statement.
  | .assign x e, h => by
    obtain ⟨s, rfl, hx, hs⟩ := h.1.exists_text hname
    obtain ⟨ts, hts, he⟩ := e.shows hname h.2
    have hline := (Spells.identifier hs).gets hts
    rw [Stmt.lines, hx]
    exact ⟨_, .singleton (hline.line depth),
      .assign (x := .spelling s) hs (TokenKind.ofText_keyword .gets) he⟩
  | .declare x e, h => by
    obtain ⟨s, rfl, hx, hs⟩ := h.1.exists_text hname
    obtain ⟨ts, hts, he⟩ := e.shows hname h.2
    have hline := (Spells.statement .var).space ((Spells.identifier hs).gets hts)
    simp only [← String.append_assoc] at hline
    rw [Stmt.lines, hx]
    exact ⟨_, .singleton (hline.line depth), .declare (x := .spelling s)
      (TokenKind.ofText_statement .var) hs (TokenKind.ofText_keyword .gets) he⟩
  | .print e, h => by
    obtain ⟨ts, hts, he⟩ := e.shows hname h
    have hline := (Spells.statement .print).space hts
    rw [← String.append_assoc] at hline
    exact ⟨_, .singleton (hline.line depth), .print (TokenKind.ofText_statement .print) he⟩
  -- An `if` without a branch is not well formed.
  | .ifElse .done, h => absurd rfl h.1
  | .ifElse (.otherwise _), h => absurd rfl h.1
  -- The first line has the condition, and what follows the body are the lines of the other branches.
  | .ifElse (.arm c body rest), ⟨_, hc, hbody, hrest⟩ => by
    obtain ⟨cs, hcs, hc⟩ := c.shows hname hc
    obtain ⟨ts, hts, hb⟩ := block_shows hname (depth + 1) body hbody
    obtain ⟨us, hus, hr⟩ := rest.shows hname depth hrest
    have hif := (Spells.statement .if).header hcs (Spells.keyword .then)
    rw [Stmt.lines, Arms.firstLines, List.cons_append, List.append_assoc]
    refine ⟨_, .cons (hif.line depth) (hts.append hus), ?_⟩
    simpa using DerivesStmt.ifElse (TokenKind.ofText_statement .if) hc
      (TokenKind.ofText_keyword .then) hb hr
  -- A header, the lines of the block one further in, and the word that ends it.
  | .whileDo c body, h => by
    obtain ⟨cs, hcs, hc⟩ := c.shows hname h.1
    obtain ⟨ts, hts, hb⟩ := block_shows hname (depth + 1) body h.2
    have hwhile := (Spells.statement .while).header hcs (Spells.keyword .do)
    have hend := SpellsAll.singleton ((Spells.keyword .endwhile).line depth)
    refine ⟨_, .cons (hwhile.line depth) (hts.append hend), ?_⟩
    simpa using DerivesStmt.whileDo (TokenKind.ofText_statement .while) hc
      (TokenKind.ofText_keyword .do) hb (TokenKind.ofText_keyword .endwhile)
  | .repeatTimes n body, h => by
    obtain ⟨ns, hns, hn⟩ := n.shows hname h.1
    obtain ⟨ts, hts, hb⟩ := block_shows hname (depth + 1) body h.2
    have hrepeat := (Spells.statement .repeat).header hns (Spells.keyword .times)
    have hend := SpellsAll.singleton ((Spells.keyword .endrepeat).line depth)
    refine ⟨_, .cons (hrepeat.line depth) (hts.append hend), ?_⟩
    simpa using DerivesStmt.repeatTimes (TokenKind.ofText_statement .repeat) hn
      (TokenKind.ofText_keyword .times) hb (TokenKind.ofText_keyword .endrepeat)
  -- A subroutine may only stand at the top level.
  | .sub .., h => h.elim
  | .call x, h => by
    obtain ⟨s, rfl, hx, hs⟩ := Interner.IsIdentifier.exists_text h hname
    have hline := (Spells.statement .call).space (Spells.identifier hs)
    rw [← String.append_assoc] at hline
    rw [Stmt.lines, hx]
    exact ⟨_, .singleton (hline.line depth),
      .call (x := .spelling s) (TokenKind.ofText_statement .call) hs⟩
  | .exit, _ =>
    ⟨_, .singleton ((Spells.statement .exit).line depth), .exit (TokenKind.ofText_statement .exit)⟩
  | .breakLoop, _ =>
    ⟨_, .singleton ((Spells.statement .break).line depth),
      .breakLoop (TokenKind.ofText_statement .break)⟩

/-- The lines after the first body of an `if`, and the word that ends it. -/
theorem Arms.shows (hname : names.NamedBy name) (depth : Nat) :
    ∀ arms : Arms, arms.WellFormed names →
    ∃ ts, SpellsAll (arms.furtherLines names.text depth ++ [line depth "endif"]) ts ∧
      DerivesArms name (ts.map .spelling) arms
  | .done, _ =>
    ⟨_, .singleton ((Spells.keyword .endif).line depth), .done (TokenKind.ofText_keyword .endif)⟩
  | .otherwise body, h => by
    obtain ⟨ts, hts, hb⟩ := block_shows hname (depth + 1) body h
    have hend := SpellsAll.singleton ((Spells.keyword .endif).line depth)
    refine ⟨_, .cons ((Spells.keyword .else).line depth) (hts.append hend), ?_⟩
    simpa using DerivesArms.otherwise (TokenKind.ofText_keyword .else) hb
      (TokenKind.ofText_keyword .endif)
  -- As for the first branch, with another word in front.
  | .arm c body rest, h => by
    obtain ⟨cs, hcs, hc⟩ := c.shows hname h.1
    obtain ⟨ts, hts, hb⟩ := block_shows hname (depth + 1) body h.2.1
    obtain ⟨us, hus, hr⟩ := rest.shows hname depth h.2.2
    have helse := (Spells.keyword .elseif).header hcs (Spells.keyword .then)
    rw [Arms.furtherLines, List.cons_append, List.append_assoc]
    refine ⟨_, .cons (helse.line depth) (hts.append hus), ?_⟩
    simpa using DerivesArms.arm (TokenKind.ofText_keyword .elseif) hc
      (TokenKind.ofText_keyword .then) hb hr

/-- The lines of a block. -/
theorem block_shows (hname : names.NamedBy name) (depth : Nat) :
    ∀ ss : List Stmt, blockWellFormed names ss →
    ∃ ts, SpellsAll (blockLines names.text depth ss) ts ∧ DerivesBlock name (ts.map .spelling) ss
  | [], _ => ⟨[], .nil, .nil⟩
  | s :: ss, h => by
    obtain ⟨ts, hts, hs⟩ := s.shows hname depth h.1
    obtain ⟨us, hus, hss⟩ := block_shows hname depth ss h.2
    exact ⟨ts ++ us, hts.append hus, by simpa using DerivesBlock.cons hs hss⟩
end

/-- The lines of a statement at the top level. -/
theorem Stmt.top_shows (hname : names.NamedBy name) {s : Stmt} (h : s.TopWellFormed names) :
    ∃ ts, SpellsAll (s.lines names.text 0) ts ∧ DerivesTop name (ts.map .spelling) s := by
  cases s with
  -- Only a subroutine is not shown as a statement in a block is. Its block stands one further in.
  | sub x body =>
    obtain ⟨s, rfl, hx, hs⟩ := h.1.exists_text hname
    obtain ⟨ts, hts, hb⟩ := block_shows hname 1 body h.2
    have hsub := (Spells.statement .sub).space (Spells.identifier hs)
    have hend := SpellsAll.singleton ((Spells.keyword .endsub).line 0)
    rw [← String.append_assoc] at hsub
    rw [Stmt.lines, hx]
    refine ⟨_, .cons (hsub.line 0) (hts.append hend), ?_⟩
    simpa using DerivesTop.sub (x := .spelling s) (TokenKind.ofText_statement .sub) hs hb
      (TokenKind.ofText_keyword .endsub)
  | _ =>
    obtain ⟨ts, hts, hs⟩ := Stmt.shows hname 0 _ h
    exact ⟨ts, hts, .stmt hs⟩

/-- **The text of a well-formed program is cut into texts that derive it.** -/
theorem Program.shows (hname : names.NamedBy name) {p : Program} (h : p.WellFormed names) :
    ∃ ts, Spells (p.display names.text) ts ∧ DerivesProgram name (ts.map .spelling) p := by
  have hlines : ∃ ts, SpellsAll (blockLines names.text 0 p) ts ∧
      DerivesProgram name (ts.map .spelling) p := by
    -- By induction on the statements, of which each stands at the top level.
    induction p with
    | nil => exact ⟨[], .nil, .nil⟩
    | cons s p ih =>
      obtain ⟨ts, hts, hs⟩ := Stmt.top_shows hname (h s List.mem_cons_self)
      obtain ⟨us, hus, hp⟩ := ih fun s' hs' => h s' (List.mem_cons_of_mem s hs')
      exact ⟨ts ++ us, hts.append hus, by simpa using DerivesProgram.cons hs hp⟩
  obtain ⟨ts, hts, hp⟩ := hlines
  exact ⟨ts, hts.intercalate (c := '\n') (by decide), hp⟩

end Shows

/-! ### Programs -/

/-- The tokens of a row of lexemes are alike to tokens with their texts. -/
theorem faces_tokensOf (ls : List Lexeme) (names : Interner) :
    (tokensOf ls names).1.map (·.face) = ((ls.map (·.text)).map Token.spelling).map (·.face) := by
  -- By induction on the lexemes. The names differ from token to token, but they are not compared.
  induction ls generalizing names with
  | nil => rfl
  | cons l ls ih =>
    simp only [tokensOf, List.map_cons, ih]
    rfl

/-- The tokens of a text are alike to tokens with the texts that it is cut into. -/
theorem Spells.faces_tokenize {s : String} {ts : List String} (h : Spells s ts)
    (names : Interner) :
    (tokenize s names).1.map (·.face) = (ts.map Token.spelling).map (·.face) := by
  -- The end of the text breaks its last word.
  have hlexes : Lexes s.toList ts := by
    have hend : Apart [] := fun c hc => by cases hc
    simpa using h [] [] hend .nil
  have hfaces := faces_tokensOf (lexemes s) names
  rwa [texts_of_lexes hlexes] at hfaces

/-- **A text is read into the program** that the texts it is cut into derive. -/
theorem Spells.parse_eq {s : String} {ts : List String} (h : Spells s ts) {names : Interner}
    {p : Program} (hp : DerivesProgram (parse s names).2.nameOf (ts.map .spelling) p) :
    (parse s names).1 = .ok p :=
  -- The tokens of the text differ from those that derive the program in their places only.
  parse_eq_ok_iff.mpr (hp.of_faces (h.faces_tokenize names))

/-- **The display of a well-formed program is read back as that program.** -/
theorem parse_display {names : Interner} {p : Program} (h : p.WellFormed names) :
    (parse (p.display names.text) names).1 = .ok p := by
  -- The names of the reading still stand for the texts that the tree's names stand for.
  have hextends := extends_parse (p.display names.text) names
  have hname : names.NamedBy (parse (p.display names.text) names).2.nameOf :=
    fun x s hx => Interner.nameOf_of_text? (Interner.text?_of_extends hextends hx)
  obtain ⟨ts, hts, hp⟩ := Program.shows hname h
  exact hts.parse_eq hp

/-- **Printing and parsing are inverse on whole trees.** Every tree that a source is read into is
well formed, and the display of every well-formed tree is read back as that tree. -/
theorem parse_display_inverse :
    (∀ (source : String) (names names' : Interner) (p : Program),
      parse source names = (.ok p, names') → p.WellFormed names') ∧
    (∀ (names : Interner) (p : Program),
      p.WellFormed names → (parse (p.display names.text) names).1 = .ok p) :=
  ⟨fun _ _ _ _ h => wellFormed_of_parse h, fun _ _ h => parse_display h⟩

/-- A variable declared and printed: the tree is read back from its display, and is well formed over
the names of that reading. -/
theorem parse_display_inverse_declared :
    let names := (Interner.initial.intern "x").2
    let x := names.nameOf "x"
    let p : Program := [.declare x (.list [.int (-1), .bool true]), .print (.var x)]
    (parse (p.display names.text) names).1 = .ok p ∧
      p.WellFormed (parse (p.display names.text) names).2 := by
  intro names x p
  -- The name is that of the text that was added, which is an identifier.
  have hx : names.IsIdentifier x :=
    ⟨"x", Interner.holds_intern _ _, by decide +kernel⟩
  have hp : p.WellFormed names := by
    intro s hs
    -- Both statements name it, and nothing else is asked of them.
    simp only [p, List.mem_cons, List.not_mem_nil, or_false] at hs
    rcases hs with rfl | rfl
    · exact ⟨hx, trivial, trivial, trivial⟩
    · exact hx
  have hok := parse_display_inverse.2 names p hp
  have hparse : parse (p.display names.text) names =
      (.ok p, (parse (p.display names.text) names).2) := by
    rw [← hok]
  exact ⟨hok, parse_display_inverse.1 _ names _ p hparse⟩

end Silly
