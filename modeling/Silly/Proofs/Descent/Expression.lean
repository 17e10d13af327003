import Silly.Proofs.Descent.Follows

/-!
# The descent reads expressions

In the middle of an expression the parser that runs has a row of holes, and the descent has calls
that have not returned. A call returns with an expression when the parser that runs has filled the
innermost of the holes that were there at the time of the call (`Descend.Delivered`).

There is one difference. What the parser that runs makes of an operator right after a parenthesis,
or of the end of a list, it finds in the innermost hole. The descent finds it by looking ahead, and
does not come to `expression` then. So `expression` follows the parser that runs only before a token
that is neither (`Descend.Plain`).

The functions call each other and are proved right together. The induction is on a bound for how many
lexemes are left. Each call that could go round in a circle has a token consumed before it.
-/

namespace Silly

open Descend

variable {O : Outcome} {k n : Nat} {ls : List Lexeme} {r : Reader} {t : Token} {names : Interner}
  {o : Opening} {hole : StmtHole} {blocks : List OpenBlock} {around : List ExprHole} {need : Need}
  {e : Expr}

/-! ### Inside a statement -/

theorem Turn.finish_ne_decline {s : Stmt} {err : ParseError} :
    (Turn.finish names o s blocks).verdict ≠ .decline err := by
  cases blocks <;> intro h <;> cases h

/-- The end of an expression is accepted, whichever holes are open around it. -/
theorem deliver_ne_decline {err : ParseError} :
    (deliver names o hole blocks e around).verdict ≠ .decline err := by
  unfold deliver
  split
  · split
    · exact Turn.finish_ne_decline
    · intro h
      cases h
  all_goals
    intro h
    cases h

/-- **A token inside a statement is consumed**, whatever it is. -/
theorem stepWithin_ne_decline {err : ParseError} :
    (stepWithin names o blocks t need).verdict ≠ .decline err := by
  -- By what the statement needs. Any answer to a token is to go on, to finish, or an error that takes
  -- it.
  cases need with
  | name use =>
    simp only [stepWithin]
    split
    · cases use with
      | call => exact Turn.finish_ne_decline
      | declare | sub =>
        intro h
        cases h
    · intro h
      cases h
  | gets | word | operator =>
    simp only [stepWithin]
    split <;> intro h <;> cases h
  | closing =>
    simp only [stepWithin]
    split
    · exact deliver_ne_decline
    · intro h
      cases h
  | expression =>
    simp only [stepWithin, stepExpression]
    split
    -- These tokens are an operand by themselves.
    case h_3 | h_4 | h_6 | h_8 => exact deliver_ne_decline
    case h_5 =>
      split
      · exact deliver_ne_decline
      · intro h
        cases h
    all_goals
      intro h
      cases h

/-- A statement that needs something, with the blocks that are open around it. -/
abbrev Fragment.within (o : Opening) (blocks : List OpenBlock) (need : Need) : Fragment :=
  ⟨.within o need, blocks⟩

namespace Descend

/-- **An expression has been read**, with which the parser that runs has filled the innermost of the
holes `around`. -/
abbrev Delivered (O : Outcome) (n : Nat) (o : Opening) (hole : StmtHole) (blocks : List OpenBlock)
    (around : List ExprHole) (e : Expr) : Assertion :=
  Turned O n fun names => deliver names o hole blocks e around

/-- What is next is the beginning of an expression as far as the innermost of the holes `around`
goes. It is no operator right after a parenthesis, and in a list it is there and does not end it. -/
def Plain : List ExprHole → Option TokenKind → Prop
  | .group :: _, some (.unary _) => False
  | .item _ :: _, some (.delimiter .closeBracket) | .item _ :: _, none => False
  | _, _ => True

/-- After the look at a token that is no operator, an operand may begin in parentheses. -/
theorem plain_group {kind : TokenKind} (h : ∀ op, kind ≠ .unary op) :
    Plain (.group :: around) (some kind) := by
  unfold Plain
  split <;> simp_all

/-- After the look at a token that does not end the list, an item may begin. -/
theorem plain_item {kind : TokenKind} {before : List Expr}
    (h : kind ≠ .delimiter .closeBracket) : Plain (.item before :: around) (some kind) := by
  unfold Plain
  split <;> simp_all

/-- The parser that runs is before an expression. -/
def Begins (O : Outcome) (n : Nat) (o : Opening) (hole : StmtHole) (blocks : List OpenBlock)
    (around : List ExprHole) : Assertion := fun r ls =>
  Reads O n (.within o blocks (.expression hole around)) r ls ∧
    Plain around (ls.head?.map (·.kind))

/-- The source may not end where an expression begins. -/
theorem Begins.eq_of_nil (h : Begins O n o hole blocks around r []) :
    O = (.error (.unexpectedEnd .expression), ⟨[], r⟩) := by
  obtain ⟨hreads, hplain⟩ := h
  refine hreads.eq_of_atEnd ?_
  -- Only in a list is it another error, and there it is known that the source does not end.
  rcases around with - | ⟨- | - | - | before, around⟩
  case cons.item => exact hplain.elim
  all_goals rfl

/-- A token that was seen begins an expression in the sense of what is plain. -/
theorem Seen.begins (h : Seen O n (.within o blocks (.expression hole around)) t r ls)
    (hplain : Plain around (some t.kind)) : Begins O n o hole blocks around r ls := by
  obtain ⟨hreads, l, ls, rfl, htoken⟩ := h
  -- A token has the kind of its lexeme.
  have hkind : l.kind = t.kind := congrArg (·.1.kind) htoken
  refine ⟨hreads, ?_⟩
  rw [List.head?_cons, Option.map_some, hkind]
  exact hplain

/-- No other token begins an expression. -/
theorem stepExpression_unexpected (hplain : Plain around (some t.kind))
    (hparen : t.kind ≠ .delimiter .openParen) (hbracket : t.kind ≠ .delimiter .openBracket)
    (hidentifier : t.kind ≠ .identifier) (hboolean : ∀ b, t.kind ≠ .boolean b)
    (hinteger : t.kind ≠ .integer) (hstring : t.kind ≠ .string) :
    stepExpression names o hole blocks around t = Turn.unexpected names t .expression := by
  unfold stepExpression
  split
  -- The two cases where the parser that runs would take the token are those which are not plain.
  case h_7 hkind => simp [hkind, Plain] at hplain
  case h_8 hkind => simp [hkind, Plain] at hplain
  case h_9 => rfl
  all_goals simp_all

namespace Follows

/-- A token that must follow is taken by both, and the end of the source is an error of both. -/
theorem nextOrEnd_reads {x : Expected}
    (hend : (Fragment.within o blocks need).atEnd = some (.unexpectedEnd x)) :
    Follows O k (Reads O n (.within o blocks need)) (Descend.nextOrEnd x) fun t =>
      Turned O n fun names => stepWithin names o blocks t need := by
  refine nextOrEnd (fun r h => h.eq_of_atEnd hend) fun r l ls h => ?_
  exact (h.take fun _ _ => stepWithin_ne_decline).mono (Nat.sub_le _ _)

theorem advance_within :
    Follows O k (Seen O n (.within o blocks need) t) Descend.advance fun t? r ls =>
      t? = some t ∧ Turned O n (fun names => stepWithin names o blocks t need) r ls :=
  mono_right (fun _ _ _ h => ⟨h.1, h.2.mono (Nat.sub_le n 1)⟩)
    (advance_seen (p := .within o blocks need) fun _ _ => stepWithin_ne_decline)

/-- A token of the kind that is needed, where any other token is an error. -/
theorem expect {kind : TokenKind} {x : Expected}
    (hend : (Fragment.within o blocks need).atEnd = some (.unexpectedEnd x))
    (hother : ∀ names t, t.kind ≠ kind →
      stepWithin names o blocks t need = Turn.unexpected names t x) :
    Follows O k (Reads O n (.within o blocks need)) (Descend.expect kind x) fun t r ls =>
      t.kind = kind ∧ Turned O n (fun names => stepWithin names o blocks t need) r ls := by
  refine (nextOrEnd_reads hend).bind fun t => ?_
  split
  · next hkind => exact pure fun r ls h => ⟨hkind, h⟩
  · next hkind =>
    simp only [hother _ t hkind]
    exact throw fun r ls h => h.eq_of_unexpected

theorem closeParen :
    Follows O k (Reads O n (.within o blocks (.closing hole around e)))
      (delimiter .closeParen) fun _ => Delivered O n o hole blocks around e := by
  refine mono_right ?_ (expect rfl ?_)
  -- The parenthesis delivers the expression to the hole around it.
  · rintro t r ls ⟨hkind, h⟩
    simp only [stepWithin, if_pos hkind] at h
    exact h
  -- Any other token is not what closes the parenthesis.
  · intro names t hkind
    exact if_neg hkind

/-! ### One step of the recursion

Each function is right with fewer lexemes than a bound if those that it calls are, some of them with
a lower bound. -/

section Step

variable (hexpr : ∀ around, Follows O k (Begins O n o hole blocks around) expression
  (Delivered O n o hole blocks around))

include hexpr

/-- The token after the parenthesis has been looked at, so it is known to be no operator where the
left operand is read. -/
theorem operation :
    Follows O k (Reads O n (.within o blocks (.expression hole (.group :: around))))
      Descend.operation fun e => Reads O n (.within o blocks (.closing hole around e)) := by
  rw [Descend.operation]
  refine peek_or_end rfl fun t => ?_
  split
  -- A unary operator. It is taken, the log says so, and its operand follows.
  case h_1 op hkind =>
    refine advance_within.bind fun t? => ?_
    refine bind (B := fun _ => Begins O n o hole blocks (.operand op :: around)) ?_
      fun _ => (hexpr _).bind fun e => ?_
    · refine note fun r ls h => ?_
      simp only [stepWithin, stepExpression, hkind] at h
      exact ⟨h.2.reads_note, by simp only [Plain]⟩
    · exact pure fun r ls h => Turned.reads h
  -- Any other token begins the left operand, and a binary operator must follow.
  case h_2 hunary =>
    have hleft := (hexpr (.group :: around)).mono_left fun r ls
      (h : Seen O n (.within o blocks (.expression hole (.group :: around))) t r ls) =>
        h.begins (plain_group hunary)
    refine hleft.bind fun left => ?_
    refine ((nextOrEnd_reads rfl).mono_left fun r ls h => Turned.reads h).bind fun t => ?_
    split
    · next op hkind =>
      refine bind (B := fun _ => Begins O n o hole blocks (.right left op :: around)) ?_
        fun _ => (hexpr _).bind fun e => ?_
      · refine note fun r ls h => ?_
        simp only [stepWithin, hkind] at h
        exact ⟨h.reads_note, by simp only [Plain]⟩
      · exact pure fun r ls h => Turned.reads h
    -- No operator follows, which is an error of both about the same token.
    · next hbinary =>
      refine throw fun r ls h => ?_
      simp only [stepWithin] at h
      exact h.eq_of_unexpected

theorem parenthesized :
    Follows O k (Reads O n (.within o blocks (.expression hole (.group :: around))))
      Descend.parenthesized (Delivered O n o hole blocks around) := by
  rw [Descend.parenthesized]
  exact (operation hexpr).bind fun e => closeParen.bind fun _ => pure fun r ls h => h

end Step

/-- **An integer** is in range for both, or it is the same error. -/
theorem integer (hkind : t.kind = .integer) :
    Follows O k (Turned O n fun names => stepExpression names o hole blocks around t)
      (Descend.integer t) (Delivered O n o hole blocks around) := by
  rw [Descend.integer]
  split
  · next i hread =>
    refine pure fun r ls h => ?_
    simpa only [stepExpression, hkind, hread] using h
  · next hread =>
    refine throw fun r ls h => ?_
    simp only [stepExpression, hkind, hread] at h
    exact h.2.symm

/-- **A string** is given a name by both after the name of its token. -/
theorem string (hkind : t.kind = .string) :
    Follows O k (Turned O n fun names => stepExpression names o hole blocks around t)
      (Descend.string t) (Delivered O n o hole blocks around) := by
  rw [Descend.string]
  refine bind (B := fun x => Delivered O n o hole blocks around (.str x)) ?_ fun x => ?_
  · refine intern fun r ls h => ?_
    simp only [stepExpression, hkind] at h
    exact h
  · exact pure fun r ls h => h

/-- **An expression is read alike** if parentheses and lists are, with one lexeme fewer. -/
theorem expression_of
    (hparen : ∀ around,
      Follows O k (Reads O n (.within o blocks (.expression hole (.group :: around))))
        Descend.parenthesized (Delivered O n o hole blocks around))
    (hitems : ∀ before around,
      Follows O k (Reads O n (.within o blocks (.expression hole (.item before :: around))))
        (items before) (Delivered O n o hole blocks around)) :
    Follows O k (Begins O (n + 1) o hole blocks around) Descend.expression
      (Delivered O n o hole blocks around) := by
  rw [Descend.expression]
  refine bind (B := fun t r ls => Plain around (some t.kind) ∧
      Turned O n (fun names => stepExpression names o hole blocks around t) r ls) ?_ fun t => ?_
  -- The first token is taken, and by its kind the expression goes on or is there.
  · refine nextOrEnd (fun r h => h.eq_of_nil) fun r l ls h => ?_
    exact ⟨h.2, h.1.take fun _ _ => stepWithin_ne_decline⟩
  · split
    -- Parentheses and lists go on with one lexeme fewer than there were.
    case h_1 hkind =>
      refine (hparen around).mono_left fun r ls h => ?_
      simp only [stepExpression, hkind] at h
      exact h.2.reads
    case h_2 hkind =>
      refine (hitems [] around).mono_left fun r ls h => ?_
      simp only [stepExpression, hkind] at h
      exact h.2.reads
    -- A name or a boolean is an expression by itself.
    case h_3 hkind =>
      refine pure fun r ls h => ?_
      simpa only [stepExpression, hkind] using h.2
    case h_4 hkind =>
      refine pure fun r ls h => ?_
      simpa only [stepExpression, hkind] using h.2
    case h_5 hkind => exact (integer hkind).mono_left fun r ls h => h.2
    case h_6 hkind => exact (string hkind).mono_left fun r ls h => h.2
    -- No other token begins an expression, by the look ahead that has come before.
    case h_7 hparen hbracket hidentifier hboolean hinteger hstring =>
      refine throw fun r ls h => ?_
      obtain ⟨hplain, h⟩ := h
      simp only [stepExpression_unexpected hplain hparen hbracket hidentifier hboolean hinteger
        hstring] at h
      exact h.eq_of_unexpected

/-- **The items of a list are read alike** from some item on, if expressions are, and the other items
with one lexeme fewer. -/
theorem items_of {before : List Expr}
    (hexpr : Follows O k (Begins O (n + 1) o hole blocks (.item before :: around)) expression
      (Delivered O n o hole blocks (.item before :: around)))
    (hitems : ∀ before,
      Follows O k (Reads O n (.within o blocks (.expression hole (.item before :: around))))
        (items before) (Delivered O n o hole blocks around)) :
    Follows O k (Reads O (n + 1) (.within o blocks (.expression hole (.item before :: around))))
      (items before) (Delivered O (n + 1) o hole blocks around) := by
  rw [Descend.items]
  refine peek_or_end rfl fun t => ?_
  split
  -- The bracket ends the list, which is delivered.
  · next hkind =>
    refine advance_within.bind fun t? => pure fun r ls h => ?_
    simp only [stepWithin, stepExpression, hkind] at h
    exact h.2
  -- An item is read, which consumes something, and the other items follow.
  · next hkind =>
    refine (hexpr.mono_left fun r ls h => Seen.begins h (plain_item hkind)).bind fun e => ?_
    refine ((hitems (e :: before)).mono_left fun r ls h => Turned.reads h).mono_right ?_
    exact fun e r ls h => Turned.mono (Nat.le_succ n) h

/-! ### Expressions and lists -/

/-- **Expressions and lists are read alike**, of any number of lexemes. -/
theorem expression_items (n : Nat) :
    (∀ around, Follows O k (Begins O (n + 1) o hole blocks around) Descend.expression
      (Delivered O n o hole blocks around)) ∧
    ∀ before around,
      Follows O k (Reads O n (.within o blocks (.expression hole (.item before :: around))))
        (items before) (Delivered O n o hole blocks around) := by
  -- By induction on the bound. An expression may have one lexeme more than a list, as its first token
  -- is taken before the list begins.
  induction n with
  | zero =>
    constructor
    · intro around
      exact expression_of (fun around => reads_zero) fun before around => reads_zero
    · exact fun before around => reads_zero
  | succ n ih =>
    obtain ⟨hexpr, hitems⟩ := ih
    have hitems' (before around) := items_of (hexpr (.item before :: around))
      fun before => hitems before around
    -- An operation begins after its parenthesis, so its operands need no more than the lower bound.
    have hoperand (around) := (hexpr around).mono_right fun e r ls h => Turned.mono (Nat.le_succ n) h
    constructor
    · intro around
      exact expression_of (fun around => parenthesized hoperand) hitems'
    · exact hitems'

/-- **The descent reads an expression as the parser that runs does**, and consumes something. -/
theorem expression :
    Follows O k (Begins O (n + 1) o hole blocks around) Descend.expression
      (Delivered O n o hole blocks around) :=
  (expression_items n).1 around

end Follows

end Descend

end Silly
