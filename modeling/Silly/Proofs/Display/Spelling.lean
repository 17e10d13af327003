import Silly.Proofs.Display.WellFormed

/-!
# How a displayed tree is cut

The text of a tree is written so that each of its words is cut out alone: blanks stand between words,
and marks need none. `Spells s ts` says this of a text `s`: wherever it stands before something that
breaks words, it is cut into the texts `ts`. Texts with this property are put together with a blank
between them (`Spells.space`) or with a mark (`Spells.mark_append`), and the same is said of the items
of a list and of the lines of a block (`SpellsAll`).

The texts into which a well-formed tree is cut derive that tree (`Expr.shows`, `Stmt.shows`). Both are
shown at once, by recursion over the tree, as the texts are found on the way.
-/

namespace Silly

/-! ### Texts put together -/

theorem Apart.of_isBreak {c : Char} {cs : List Char} (h : isBreak c = true) : Apart (c :: cs) := by
  intro d hd
  cases hd
  exact h

theorem Apart.append {cs cs' : List Char} (h : Apart cs) (h' : Apart cs') : Apart (cs ++ cs') := by
  cases cs with
  | nil => exact h'
  | cons c cs => exact .of_isBreak (h c rfl)

/-- **The texts that a text is cut into** before whatever breaks words. -/
def Spells (s : String) (ts : List String) : Prop :=
  ∀ cs ts', Apart cs → Lexes cs ts' → Lexes (s.toList ++ cs) (ts ++ ts')

namespace Spells

variable {s s' : String} {ts ts' : List String}

theorem empty : Spells "" [] := fun _ _ _ h => h

/-- A text before one that begins with a break. -/
theorem append (h : Spells s ts) (h' : Spells s' ts') (hs' : Apart s'.toList) :
    Spells (s ++ s') (ts ++ ts') := by
  intro cs us hcs hus
  rw [String.toList_append, List.append_assoc, List.append_assoc]
  exact h _ _ (hs'.append hcs) (h' cs us hcs hus)

/-- A blank in front changes nothing. -/
theorem blank_append {c : Char} (hc : isBlank c = true) (h : Spells s ts) :
    Spells (c.toString ++ s) ts := by
  intro cs us hcs hus
  have hlexes := Lexes.blank hc (h cs us hcs hus)
  simpa [Char.toString] using hlexes

/-- A mark in front needs nothing between. -/
theorem mark_append {c : Char} (hc : isMark c = true) (h : Spells s ts) :
    Spells (c.toString ++ s) (c.toString :: ts) := by
  intro cs us hcs hus
  have hlexes := Lexes.mark hc (h cs us hcs hus)
  simpa [Char.toString] using hlexes

theorem mark {c : Char} (hc : isMark c = true) : Spells c.toString [c.toString] := by
  have h := mark_append hc empty
  rwa [String.append_empty] at h

/-- **Two texts with a blank between them.** -/
theorem space (h : Spells s ts) (h' : Spells s' ts') : Spells (s ++ (" " ++ s')) (ts ++ ts') := by
  -- The blank belongs to the second text, and breaks the last word of the first.
  have hblank : Spells (" " ++ s') ts' := h'.blank_append (c := ' ') (by decide)
  have hapart : Apart (" " ++ s').toList := by
    rw [String.toList_append]
    exact .of_isBreak (c := ' ') (by decide)
  exact h.append hblank hapart

/-- A text that breaks nowhere and opens no string is one word. -/
theorem word (hne : s.toList ≠ []) (hs : ∀ c ∈ s.toList, isBreak c = false ∧ c ≠ '"') :
    Spells s [s] := by
  intro cs us hcs hus
  obtain ⟨c, w, hcw⟩ := List.exists_cons_of_ne_nil hne
  rw [hcw] at hs
  have hlexes := Lexes.word (hs c List.mem_cons_self).2 (fun d hd => (hs d hd).1) hcs hus
  rw [← hcw, String.ofList_toList] at hlexes
  rwa [hcw]

/-- A text without quotes and line breaks is one literal when quoted. -/
theorem quote (hs : Unquoted s.toList) : Spells (quote s) [quote s] := by
  -- The quoted text is a quote, the text, and a quote.
  intro cs us _ hus
  have hquote : Silly.quote s = String.ofList ('"' :: (s.toList ++ ['"'])) := by
    rw [← String.toList_inj]
    simp [Silly.quote]
  have hlexes := Lexes.closed hs hus
  rw [← hquote] at hlexes
  simpa [hquote] using hlexes

/-- A text of which each character can be seen to be fit for a word. -/
theorem word_of_all (hne : s.toList ≠ [])
    (hs : (s.toList.all fun c => !isBreak c && c != '"') = true) : Spells s [s] := by
  refine word hne fun c hc => ?_
  have hfit := List.all_eq_true.mp hs c hc
  simpa using hfit

theorem keyword (k : Keyword) : Spells k.text [k.text] := by
  cases k <;> exact word_of_all (by decide) (by decide +kernel)

theorem statement (k : StatementKeyword) : Spells k.text [k.text] := by
  cases k <;> exact word_of_all (by decide) (by decide +kernel)

theorem boolText (b : Bool) : Spells (boolText b) [Silly.boolText b] := by
  cases b <;> exact word_of_all (by decide) (by decide +kernel)

/-- **An identifier is one word**, as it begins with a letter and goes on with letters, digits and
underscores. -/
theorem identifier (h : TokenKind.ofText s = .identifier) : Spells s [s] := by
  obtain ⟨c, w, hs, hc, hw⟩ := TokenKind.ofText_eq_identifier h
  have hname : ∀ d ∈ s.toList, isNameChar d = true := by
    rw [hs]
    exact List.forall_mem_cons.mpr ⟨isNameChar_of_isLetter hc, hw⟩
  refine word (by simp [hs]) fun d hd => ⟨isBreak_eq_false_of_isNameChar (hname d hd), ?_⟩
  -- The quote is none of these characters.
  rintro rfl
  exact absurd (hname _ hd) (by decide +kernel)

/-- **A number is one word**, also one with a minus in front. -/
theorem integer (n : Int64) : Spells (Integer.text n) [Integer.text n] := by
  refine word (Integer.text_ne_nil n) fun c hc => ?_
  -- It has digits in it and nothing else but the minus, and neither is a break.
  rcases Integer.eq_or_isDigit_of_mem_text hc with rfl | hdigit
  · decide
  · refine ⟨isBreak_eq_false_of_isDigit hdigit, ?_⟩
    rintro rfl
    exact absurd hdigit (by decide)

/-- A text between two delimiters. -/
theorem delimited (d d' : Delimiter) (h : Spells s ts) :
    Spells (d.text ++ s ++ d'.text) (d.text :: (ts ++ [d'.text])) := by
  -- Each delimiter is a mark, so the one at the end is apart from what it ends.
  have hmark (d : Delimiter) : isMark d.mark = true := by cases d <;> decide
  have hapart : Apart d'.text.toList := by
    rw [Delimiter.text, Char.toString, String.toList_singleton]
    exact .of_isBreak (by simp [isBreak, hmark])
  rw [String.append_assoc]
  exact (h.append (mark (hmark d')) hapart).mark_append (hmark d)

theorem unary (op : UnaryOp) : Spells op.symbol [op.symbol] := mark (by cases op <;> decide)

theorem binary (op : BinaryOp) : Spells op.symbol [op.symbol] := mark (by cases op <;> decide)

end Spells

/-- **Texts that are cut one by one.** -/
inductive SpellsAll : List String → List String → Prop
  | nil : SpellsAll [] []
  | cons {s : String} {ss ts us : List String} :
      Spells s ts → SpellsAll ss us → SpellsAll (s :: ss) (ts ++ us)

namespace SpellsAll

variable {ss ss' ts ts' : List String}

/-- Two rows of texts, one after the other. -/
theorem append (h : SpellsAll ss ts) (h' : SpellsAll ss' ts') :
    SpellsAll (ss ++ ss') (ts ++ ts') := by
  induction h with
  | nil => exact h'
  | cons hs _ ih =>
    rw [List.cons_append, List.append_assoc]
    exact .cons hs ih

theorem singleton {s : String} (h : Spells s ts) : SpellsAll [s] ts := by
  have hcons : SpellsAll [s] (ts ++ []) := .cons h .nil
  rwa [List.append_nil] at hcons

/-- **Texts with a blank between each two** are cut as each of them is. -/
theorem intercalate {c : Char} (hc : isBlank c = true) (h : SpellsAll ss ts) :
    Spells (c.toString.intercalate ss) ts := by
  -- By induction on the texts. A blank before the rest breaks the last word of the first text.
  induction h with
  | nil => exact .empty
  | @cons s ss ts us hs hss ih =>
    cases ss with
    -- One text has no blank after it.
    | nil =>
      cases hss
      rwa [String.intercalate_singleton, List.append_nil]
    | cons s' ss =>
      have hapart : Apart (c.toString ++ c.toString.intercalate (s' :: ss)).toList := by
        rw [String.toList_append, Char.toString, String.toList_singleton]
        exact .of_isBreak (by simp [isBreak, hc])
      rw [String.intercalate_cons_cons, String.append_assoc]
      exact hs.append (ih.blank_append hc) hapart

end SpellsAll

/-! ### Expressions -/

/-- A token with the given text. -/
def Token.spelling (s : String) : Token := ⟨.ofText s, s, .empty, .dummy⟩

@[simp] theorem Token.spelling_text (s : String) : (spelling s).text = s := rfl

@[simp] theorem Token.spelling_contents (s : String) : (spelling (quote s)).contents = s := by
  simp [Token.contents, quote, String.ofList_toList]

section Shows

variable {names : Interner} {name : String → Name}

/-- An assignment that gives each text the name that stands for it. -/
def Interner.NamedBy (names : Interner) (name : String → Name) : Prop :=
  ∀ x s, names.text? x = some s → name s = x

/-- The name of an identifier is the one that its text is given. -/
theorem Interner.IsIdentifier.exists_text {x : Name} (h : names.IsIdentifier x)
    (hname : names.NamedBy name) :
    ∃ s, x = name s ∧ names.text (name s) = s ∧ TokenKind.ofText s = .identifier := by
  obtain ⟨s, hx, hs⟩ := h
  obtain rfl := hname x s hx
  exact ⟨s, rfl, by rw [Interner.text, hx, Option.getD_some], hs⟩

/-- The name of a string is the one that its contents are given. -/
theorem Interner.IsContents.exists_text {x : Name} (h : names.IsContents x)
    (hname : names.NamedBy name) :
    ∃ s, x = name s ∧ names.text (name s) = s ∧ Unquoted s.toList := by
  obtain ⟨s, hx, hs⟩ := h
  obtain rfl := hname x s hx
  exact ⟨s, rfl, by rw [Interner.text, hx, Option.getD_some], hs⟩

-- The texts are found on the way, so the cut and the derivation are shown at once.
mutual
/-- **The text of a well-formed expression is cut into texts that derive it.** -/
theorem Expr.shows (hname : names.NamedBy name) : ∀ e : Expr, e.WellFormed names →
    ∃ ts, Spells (e.display names.text) ts ∧ DerivesExpr name (ts.map .spelling) e
  | .int n, _ =>
    ⟨_, .integer n, .int (Integer.ofText_text n) (Integer.read?_text n)⟩
  | .bool b, _ => ⟨_, .boolText b, .bool (TokenKind.ofText_boolText b)⟩
  -- The contents of the quoted text are the text, so it is named as the tree names it.
  | .str x, h => by
    obtain ⟨s, rfl, hx, hs⟩ := Interner.IsContents.exists_text h hname
    have hstr : DerivesExpr name [.spelling (quote s)] (.str (name _)) :=
      .str (TokenKind.ofText_quote s)
    rw [Token.spelling_contents] at hstr
    rw [Expr.display, hx]
    exact ⟨_, .quote hs, hstr⟩
  | .var x, h => by
    obtain ⟨s, rfl, hx, hs⟩ := Interner.IsIdentifier.exists_text h hname
    rw [Expr.display, hx]
    exact ⟨[s], .identifier hs, .var hs⟩
  -- The items are cut with blanks between them, and then the brackets.
  | .list es, h => by
    obtain ⟨ts, hts, hes⟩ := items_shows hname es h
    have hspells := (hts.intercalate (c := ' ') (by decide)).delimited .openBracket .closeBracket
    refine ⟨_, hspells, ?_⟩
    simpa using DerivesExpr.list (TokenKind.ofText_delimiter .openBracket) hes
      (TokenKind.ofText_delimiter .closeBracket)
  -- The display is put together from the left, and the cut from the right.
  | .unary op e, h => by
    obtain ⟨ts, hts, he⟩ := e.shows hname h
    have hspells := ((Spells.unary op).space hts).delimited .openParen .closeParen
    have htext : (Expr.unary op e).display names.text = Delimiter.openParen.text ++
        (op.symbol ++ (" " ++ e.display names.text)) ++ Delimiter.closeParen.text := by
      simp only [Expr.display, String.append_assoc]
      rfl
    refine ⟨_, htext ▸ hspells, ?_⟩
    simpa using DerivesExpr.unary (TokenKind.ofText_delimiter .openParen)
      (TokenKind.ofText_unary op) he (TokenKind.ofText_delimiter .closeParen)
  -- The operands are cut with the operator between them, and then the parentheses.
  | .binary op l r, h => by
    obtain ⟨ts, hts, hl⟩ := l.shows hname h.1
    obtain ⟨us, hus, hr⟩ := r.shows hname h.2
    have hspells := (hts.space ((Spells.binary op).space hus)).delimited .openParen .closeParen
    have htext : (Expr.binary op l r).display names.text = Delimiter.openParen.text ++
        (l.display names.text ++ (" " ++ (op.symbol ++ (" " ++ r.display names.text)))) ++
        Delimiter.closeParen.text := by
      simp only [Expr.display, String.append_assoc]
      rfl
    refine ⟨_, htext ▸ hspells, ?_⟩
    simpa using DerivesExpr.binary (TokenKind.ofText_delimiter .openParen) hl
      (TokenKind.ofText_binary op) hr (TokenKind.ofText_delimiter .closeParen)

/-- The items of a list, one by one. -/
theorem items_shows (hname : names.NamedBy name) : ∀ es : List Expr, itemsWellFormed names es →
    ∃ ts, SpellsAll (displayItems names.text es) ts ∧ DerivesItems name (ts.map .spelling) es
  | [], _ => ⟨[], .nil, .nil⟩
  | e :: es, h => by
    obtain ⟨ts, hts, he⟩ := e.shows hname h.1
    obtain ⟨us, hus, hes⟩ := items_shows hname es h.2
    exact ⟨ts ++ us, .cons hts hus, by simpa using DerivesItems.cons he hes⟩
end

end Shows

end Silly
