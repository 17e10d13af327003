import Silly.Proofs.Display.Reread
import Silly.Proofs.Heap.Clean

/-!
# Values are read back

The text of a value is the literal that evaluates to it. This is shown of the value with its texts in it
and no handles, for which there is one expression (`Value.asExpr`), but for the choice of names. The
text of a clean value is cut into texts that derive this expression (`Value.shows`), so it is what the
parser makes of the text. Where the heap holds the texts already, evaluating it finds them there: it
comes to the value with the very handles that it had, and adds nothing (`Value.Valid.eval_asExpr`).

Hence two values with one text are one value (`Value.Valid.literal_injective`).
-/

namespace Silly

namespace Value

/-! ### The expression of a value -/

mutual
/-- **The expression that a value is the value of**, where `name` gives the names of texts. -/
def asExpr (name : String → Name) : Value String → Expr
  | int n => .int n
  | bool b => .bool b
  | str s => .str (name s)
  | list items => .list (itemsAsExpr name items)

/-- The expressions of the items of a list. -/
def itemsAsExpr (name : String → Name) : List (Value String) → List Expr
  | [] => []
  | v :: vs => v.asExpr name :: itemsAsExpr name vs
end

mutual
/-- **A clean value**: its strings hold no quote and no line break. -/
def Clean : Value String → Prop
  | int _ | bool _ => True
  | str s => Unquoted s.toList
  | list items => itemsClean items

/-- Each of the values is clean. -/
def itemsClean : List (Value String) → Prop
  | [] => True
  | v :: vs => v.Clean ∧ itemsClean vs
end

-- The cut does not depend on the names, so it is found before they are.
mutual
/-- **The text of a clean value is cut into texts that derive its expression.** -/
theorem shows : ∀ v : Value String, v.Clean →
    ∃ text ts, v.literal () = .ok text ∧ Spells text ts ∧
      ∀ name, DerivesExpr name (ts.map .spelling) (v.asExpr name)
  -- Numbers and truth values are read as they are written.
  | int n, _ =>
    ⟨_, _, rfl, .integer n, fun _ => .int (Integer.ofText_text n) (Integer.read?_text n)⟩
  | bool b, _ => ⟨_, _, rfl, .boolText b, fun _ => .bool (TokenKind.ofText_boolText b)⟩
  | str s, hs => by
    refine ⟨_, _, rfl, .quote hs, fun name => ?_⟩
    have hstr : DerivesExpr name [.spelling (quote s)] (.str (name _)) :=
      .str (TokenKind.ofText_quote s)
    rwa [Token.spelling_contents] at hstr
  -- The items are cut with blanks between them, and the brackets around them.
  | list vs, hvs => by
    obtain ⟨texts, ts, htexts, hts, hes⟩ := items_shows vs hvs
    have hspells := (hts.intercalate (c := ' ') (by decide)).delimited .openBracket .closeBracket
    refine ⟨_, _, ?_, hspells, fun name => ?_⟩
    · rw [literal, htexts]
      rfl
    · rw [asExpr]
      simpa using DerivesExpr.list (TokenKind.ofText_delimiter .openBracket) (hes name)
        (TokenKind.ofText_delimiter .closeBracket)

/-- The items of a list, one by one. -/
theorem items_shows : ∀ vs : List (Value String), itemsClean vs →
    ∃ texts ts, literals () vs = .ok texts ∧ SpellsAll texts ts ∧
      ∀ name, DerivesItems name (ts.map .spelling) (itemsAsExpr name vs)
  | [], _ => ⟨[], [], rfl, .nil, fun _ => .nil⟩
  | v :: vs, h => by
    obtain ⟨text, ts, htext, hts, he⟩ := v.shows h.1
    obtain ⟨texts, us, htexts, hus, hes⟩ := items_shows vs h.2
    refine ⟨text :: texts, ts ++ us, ?_, .cons hts hus, fun name => ?_⟩
    · rw [literals, htext, htexts]
    · rw [itemsAsExpr]
      simpa using DerivesItems.cons (he name) (hes name)
end

/-! ### Values with handles -/

variable {h : Heap}

mutual
/-- What a valid value of a clean heap stands for is clean. -/
theorem Valid.clean_plain (hh : h.Clean) : ∀ {v : Value}, v.Valid h → (v.plain h).Clean
  | int _, _ | bool _, _ => trivial
  | str _, hx => hh.text (Heap.text_eq hx)
  | list vs, hvs => by
    rw [plain_list]
    exact itemsClean_plain hh hvs

theorem itemsClean_plain (hh : h.Clean) :
    ∀ {vs : List Value}, itemsValid h vs → itemsClean (vs.map (plain h))
  | [], _ => trivial
  | _ :: _, hvs => ⟨hvs.1.clean_plain hh, itemsClean_plain hh hvs.2⟩
end

variable {names : Interner} {env : Environment}

/-- A string whose text the heap holds already is the string with the handle of that text. -/
theorem newString_read {x : Handle} (hx : (h.text? x).isSome) :
    BinaryOp.newString h (.ok (h.read x)) = (.ok (str x), h) := by
  -- The heap has the text at the handle, so naming it gives the handle back and adds nothing.
  obtain ⟨s, hs⟩ := Option.isSome_iff_exists.mp hx
  have hread : h.read x = s := by rw [Heap.read, hs, Option.getD_some]
  have hintern : h.intern s = (x, h) := by
    rw [Heap.intern, TextTable.intern_of_text? hs]
  rw [hread]
  show (Except.ok (str (h.intern s).1), (h.intern s).2) = _
  rw [hintern]

/-- The name of a text that can stand between quotes stands for that text. -/
theorem resolve_of_isContents {s : String} (hs : names.IsContents (names.nameOf s)) :
    names.resolve (names.nameOf s) = .ok s := by
  obtain ⟨s', hs', -⟩ := hs
  have hholds : names.text? (names.nameOf s) = some s := Interner.holds_of_text? hs'
  rw [Interner.resolve, hholds]
  rfl

mutual
/-- **Evaluating the expression of a value** gives back the value itself, and leaves the heap as it
is. -/
theorem Valid.eval_asExpr : ∀ {v : Value}, v.Valid h →
    ((v.plain h).asExpr names.nameOf).WellFormed names →
    ((v.plain h).asExpr names.nameOf).eval names env h = (.ok v, h)
  | int _, _, _ | bool _, _, _ => rfl
  -- The name is resolved to the text, whose handle is that of the value.
  | str x, hx, hwell => by
    rw [plain_str, asExpr] at hwell ⊢
    rw [Expr.eval, resolve_of_isContents hwell, newString_read hx]
  -- The items come to themselves, and so does the list of them.
  | list vs, hvs, hwell => by
    rw [plain_list, asExpr] at hwell ⊢
    rw [Expr.eval, eval_itemsAsExpr hvs hwell]

/-- The items of a list come to the values that they are the expressions of, one after the other. -/
theorem eval_itemsAsExpr : ∀ {vs : List Value}, itemsValid h vs →
    itemsWellFormed names (itemsAsExpr names.nameOf (vs.map (plain h))) →
    evalItems names env (itemsAsExpr names.nameOf (vs.map (plain h))) h = (.ok vs, h)
  | [], _, _ => rfl
  | v :: vs, hvs, hwell => by
    rw [List.map_cons, itemsAsExpr] at hwell ⊢
    rw [evalItems, hvs.1.eval_asExpr hwell.1]
    dsimp only
    rw [eval_itemsAsExpr hvs.2 hwell.2]
end

/-! ### Reading values back -/

/-- **The text of a value is read back.** Whatever the table of names, the text is one expression with
nothing left over, and a statement can print it. Evaluating the expression gives the value, with its
handles, and leaves the heap as it is. -/
structure ReadBack (h : Heap) (v : Value) (text : String) : Prop where
  literal : v.literal h = .ok text
  reading : ∀ before, ∃ e after, parse ("print " ++ text) before = (.ok [.print e], after) ∧
    DerivesExpr after.nameOf (tokenize text before).1 e ∧
    ∀ env, e.eval after env h = (.ok v, h)

/-- **Every valid value of a clean heap has a text that is read back.** -/
theorem Valid.exists_readBack (hh : h.Clean) {v : Value} (hv : v.Valid h) :
    ∃ text, v.ReadBack h text := by
  -- The text is cut into texts that derive the expression for every choice of names.
  obtain ⟨text, ts, htext, hts, he⟩ := (v.plain h).shows (hv.clean_plain hh)
  rw [literal_plain hv] at htext
  refine ⟨text, htext, fun before => ?_⟩
  have hprint : Spells ("print " ++ text) (StatementKeyword.print.text :: ts) := by
    have hspace := (Spells.statement .print).space hts
    rwa [← String.append_assoc] at hspace
  -- The names of the reading are those by which the texts derive the statement.
  let after := (parse ("print " ++ text) before).2
  have hstmt : DerivesProgram after.nameOf ((StatementKeyword.print.text :: ts).map .spelling)
      [.print ((v.plain h).asExpr after.nameOf)] := by
    have hcons := DerivesProgram.cons (.stmt (.print (p := .spelling StatementKeyword.print.text)
      (TokenKind.ofText_statement .print) (he after.nameOf))) .nil
    rwa [List.append_nil] at hcons
  have hparse := parse_eq_of_ok (hprint.parse_eq hstmt)
  -- The expression is in the tree of a reading, so its names are those of identifiers and contents.
  have hwell : ((v.plain h).asExpr after.nameOf).WellFormed after :=
    wellFormed_of_parse hparse _ List.mem_cons_self
  refine ⟨_, after, hparse, ?_, fun env => hv.eval_asExpr hwell⟩
  exact (he after.nameOf).of_faces (hts.faces_tokenize before)

/-- A text is read back as one value. -/
theorem ReadBack.eq {v w : Value} {text : String} (hv : v.ReadBack h text)
    (hw : w.ReadBack h text) : v = w := by
  -- Both are read over the same table, so there is one expression, and it has one value.
  obtain ⟨e, after, hparse, -, heval⟩ := hv.reading .initial
  obtain ⟨e', after', hparse', -, heval'⟩ := hw.reading .initial
  rw [hparse] at hparse'
  cases hparse'
  have hsame := (heval .initial).symm.trans (heval' .initial)
  exact Except.ok.inj (congrArg Prod.fst hsame)

/-- **Values with the same text are the same.** -/
theorem Valid.literal_injective (hh : h.Clean) {v w : Value} (hv : v.Valid h) (hw : w.Valid h)
    (htext : v.literal h = w.literal h) : v = w := by
  -- Both values have texts that are read back, and the texts are the same.
  obtain ⟨text, hread⟩ := hv.exists_readBack hh
  obtain ⟨text', hread'⟩ := hw.exists_readBack hh
  obtain rfl : text = text' := by
    have hsame := hread.literal.symm.trans (htext.trans hread'.literal)
    exact Except.ok.inj hsame
  exact hread.eq hread'

end Value

end Silly
