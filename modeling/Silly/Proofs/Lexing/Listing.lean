import Silly.Proofs.Lexing.Lossless
import Silly.Proofs.Lines
import Silly.Source

/-!
# The listing of a source is read back

The listing of a source has a row for each of its tokens: the kind and the text, filled up with blanks, and
the span. Nothing in it is escaped. A text may hold blanks, at-signs, dots and digits, and a long one is not
cut off, so that what comes after it has no place of its own.

A row is read from its end (`Lexeme.ofRow`). The last at-sign in it is not in the text but stands before the
span, since a span has only digits and dots. So the span is known, and with it how many bytes the text has.
The text begins at a fixed place, because no kind is too long for its column. This gives back each lexeme of
a source that is short enough for its offsets (`Lexeme.ofRow_row`). And a row is a line, as no token has a
line break in it, so the whole listing is read back (`readListing_tokenListing`).
-/

namespace Silly

/-- **The row of a lexeme** in a listing, without the line break after it. -/
def Lexeme.row (l : Lexeme) : String :=
  padRight 18 l.kind.describe ++ " " ++ padRight 12 l.text ++ " @ " ++ l.span.text

/-! ### Reading a row -/

/-- What comes after the last at-sign. -/
def afterAt (cs : List Char) : List Char := (cs.reverse.takeWhile (· != '@')).reverse

/-- What comes before that, the at-sign included. -/
def throughAt (cs : List Char) : List Char := (cs.reverse.dropWhile (· != '@')).reverse

/-- The beginning of a row of characters that has so many bytes. -/
def takeBytes : List Char → ℕ → List Char
  | [], _ => []
  | c :: cs, n => if n = 0 then [] else c :: takeBytes cs (n - c.utf8Size)

/-- **Reading the span of a row**: two numbers with two dots between them, after a blank. -/
def Span.ofRow (row : List Char) : Span :=
  let numbers := (afterAt row).drop 1
  ⟨Numeral.magnitude (numbers.takeWhile (·.isDigit)),
    Numeral.magnitude ((numbers.dropWhile (·.isDigit)).drop 2)⟩

/-- **Reading a row.** The text has as many bytes as the span says, and begins after the column of the
kind. -/
def Lexeme.ofRow (row : String) : Lexeme :=
  let span := Span.ofRow row.toList
  let text := takeBytes ((throughAt row.toList).drop 19) span.length
  ⟨String.ofList text, span.start, span.stop⟩

/-- **Reading a listing**, row by row. Nothing comes after its last line break. -/
def readListing (listing : String) : List Lexeme := (textLines listing).dropLast.map Lexeme.ofRow

/-- A row is reversed to look for its last at-sign. -/
theorem reverse_at (u v : List Char) : (u ++ '@' :: v).reverse = v.reverse ++ '@' :: u.reverse := by
  simp

section
variable {u v : List Char} (hv : '@' ∉ v)
include hv

/-- Reversed, what holds no at-sign still holds none. -/
theorem ne_at_of_mem_reverse : ∀ c ∈ v.reverse, (c != '@') = true := by
  intro c hc
  rw [bne_iff_ne]
  rintro rfl
  exact hv (List.mem_reverse.mp hc)

theorem afterAt_append : afterAt (u ++ '@' :: v) = v := by
  rw [afterAt, reverse_at, takeWhile_append (ne_at_of_mem_reverse hv) (by simp), List.reverse_reverse]

theorem throughAt_append : throughAt (u ++ '@' :: v) = u ++ ['@'] := by
  rw [throughAt, reverse_at, dropWhile_append (ne_at_of_mem_reverse hv) (by simp), List.reverse_cons,
    List.reverse_reverse]

end

/-- **As many bytes as a text has** give back the text, whatever follows. -/
theorem takeBytes_append (w rest : List Char) : takeBytes (w ++ rest) (String.utf8Len w) = w := by
  induction w with
  | nil => cases rest <;> rfl
  | cons c w ih =>
    have hc := c.utf8Size_pos
    -- The first character is taken, with its bytes, so those of the others are left.
    have hrest : String.utf8Len (c :: w) - c.utf8Size = String.utf8Len w := by
      rw [String.utf8Len_cons, Nat.add_sub_cancel]
    rw [List.cons_append, takeBytes, if_neg (by rw [String.utf8Len_cons]; omega), hrest, ih]

/-! ### Rows that are read back -/

theorem toList_padRight (width : ℕ) (s : String) :
    (padRight width s).toList = s.toList ++ List.replicate (width - s.length) ' ' := by
  rw [padRight, String.toList_append, String.toList_ofList]

/-- The characters of a span: two rows of digits, and two dots. -/
theorem Span.toList_text (s : Span) :
    s.text.toList = Nat.toDigits 10 s.start ++ '.' :: '.' :: Nat.toDigits 10 s.stop := by
  have htext : s.text = s.start.repr ++ ".." ++ s.stop.repr := rfl
  rw [htext, String.toList_append, String.toList_append, Nat.toList_repr, Nat.toList_repr,
    List.append_assoc]
  rfl

/-- A span has only digits and dots. -/
theorem Span.not_mem_text {c : Char} (hdot : c ≠ '.') (hdigit : c.isDigit = false) (s : Span) :
    c ∉ s.text.toList := by
  -- Neither number has such a character, since numbers have only digits.
  have hnumber (n : ℕ) : c ∉ Nat.toDigits 10 n := by
    intro h
    rw [Integer.isDigit_of_mem_toDigits h] at hdigit
    cases hdigit
  rw [s.toList_text]
  simp [hdot, hnumber]

/-- What follows the at-sign of a row has no at-sign in it. -/
theorem Span.at_not_mem (s : Span) : '@' ∉ ' ' :: s.text.toList := by
  have hspan : '@' ∉ s.text.toList := s.not_mem_text (by decide) (by decide)
  exact List.not_mem_cons_of_ne_of_not_mem (by decide) hspan

/-- **The span at the end of a row** is read back. -/
theorem Span.ofRow_append (u : List Char) (s : Span) :
    ofRow (u ++ '@' :: ' ' :: s.text.toList) = s := by
  have hmagnitude (n : ℕ) : Numeral.magnitude (Nat.toDigits 10 n) = n := Nat.ofDigitChars_ten_toDigits
  have hdigits : ∀ c ∈ Nat.toDigits 10 s.start, c.isDigit = true :=
    fun c hc => Integer.isDigit_of_mem_toDigits hc
  -- The first number ends where the dots begin.
  have hdots : ∀ c ∈ ('.' :: '.' :: Nat.toDigits 10 s.stop).head?, c.isDigit = false := by
    rintro c ⟨⟩
    decide
  have hstart := takeWhile_append hdigits hdots
  have hstop := dropWhile_append hdigits hdots
  rw [ofRow, afterAt_append s.at_not_mem, List.drop_one, List.tail_cons, s.toList_text, hstart, hstop,
    hmagnitude]
  exact congrArg (Span.mk s.start) (hmagnitude s.stop)

/-- What a kind is called fits into its column. -/
theorem TokenKind.describe_fits (k : TokenKind) : k.describe.length ≤ 18 ∧ OneLine k.describe := by
  -- There are ten ways in which kinds are called, and each is looked at.
  have hall : ∀ s ∈ ["delimiter", "unary operator", "binary operator", "statement keyword", "keyword",
      "identifier", "integer literal", "boolean literal", "string literal", "unknown token"],
      s.length ≤ 18 ∧ OneLine s := by decide
  cases k <;> exact hall _ (by simp [describe])

namespace Lexeme

/-- **The characters of a row.** The first nineteen are the kind and the blanks after it, and the last
at-sign is the one before the span. -/
theorem exists_toList_row (l : Lexeme) : ∃ column blanks, column.length = 19 ∧
    l.row.toList = column ++ (l.text.toList ++ blanks) ++ '@' :: ' ' :: l.span.text.toList := by
  let column := (padRight 18 l.kind.describe).toList ++ [' ']
  let blanks := List.replicate (12 - l.text.length) ' ' ++ [' ']
  refine ⟨column, blanks, ?_, ?_⟩
  -- The kind, with its blanks, and one blank more.
  · have hfits := l.kind.describe_fits.1
    simp only [column, toList_padRight, List.length_append, String.length_toList,
      List.length_replicate, List.length_singleton]
    omega
  · have hrow : l.row.toList = column ++ (padRight 12 l.text).toList ++
        [' ', '@', ' '] ++ l.span.text.toList := by
      simp [row, column]
    rw [hrow, toList_padRight]
    simp [blanks]

/-- **A row gives back its lexeme**, if the span has the offsets and the text the bytes between them. -/
theorem ofRow_row {l : Lexeme} (hspan : l.span = ⟨l.start, l.stop⟩)
    (hstop : l.stop = l.start + String.utf8Len l.text.toList) : ofRow l.row = l := by
  obtain ⟨column, blanks, hcolumn, hrow⟩ := l.exists_toList_row
  -- The span comes first, since it says how long the text is.
  have hread : Span.ofRow l.row.toList = ⟨l.start, l.stop⟩ := by
    rw [hrow, Span.ofRow_append, hspan]
  have htext : takeBytes ((throughAt l.row.toList).drop 19) (Span.length ⟨l.start, l.stop⟩) =
      l.text.toList := by
    have hlength : Span.length ⟨l.start, l.stop⟩ = String.utf8Len l.text.toList := by
      rw [Span.length, hstop, Nat.add_sub_cancel_left]
    -- The column of the kind is dropped, and the text is at the beginning of what is left.
    have hdrop : (throughAt l.row.toList).drop 19 = l.text.toList ++ (blanks ++ ['@']) := by
      rw [hrow, throughAt_append l.span.at_not_mem, List.append_assoc, ← hcolumn, List.drop_left,
        List.append_assoc]
    rw [hdrop, hlength, takeBytes_append]
  rw [ofRow, hread, htext, String.ofList_toList]

end Lexeme

/-! ### Rows that are lines -/

/-- A text on one line stays there when it is filled up. -/
theorem OneLine.padRight {s : String} (h : OneLine s) (width : ℕ) : OneLine (padRight width s) := by
  unfold OneLine
  rw [toList_padRight, List.mem_append]
  rintro (hs | hblank)
  · exact h hs
  · exact absurd (List.eq_of_mem_replicate hblank) (by decide)

/-- **No lexeme has a line break in it.** -/
theorem CutsOff.oneLine {w rest : List Char} (h : CutsOff w rest) : OneLine (String.ofList w) := by
  have hbody {body : List Char} (hplain : Unquoted body) : '\n' ∉ body :=
    fun hmem => (hplain _ hmem).2 rfl
  unfold OneLine
  rw [String.toList_ofList]
  -- A string breaks off before the line does, and a line break is neither a mark nor part of a word.
  cases h with
  | mark hc =>
    intro hmem
    obtain rfl := List.mem_singleton.mp hmem
    exact absurd hc (by decide)
  | closed hplain => simp [hbody hplain]
  | unclosed hplain => simp [hbody hplain]
  | word _ hw =>
    intro hmem
    have hbreak : isBreak '\n' = true := by decide
    rw [hw _ hmem] at hbreak
    cases hbreak

section
variable {source : String} {l : Lexeme}

/-- **The row of a lexeme is one line.** -/
theorem oneLine_row (hl : l ∈ lexemes source) : OneLine l.row := by
  have htext : OneLine l.text := by
    obtain ⟨before, w, rest, -, hcut, rfl⟩ := (placed_lexemes source).exists_place l hl
    exact hcut.oneLine
  have hspan : OneLine l.span.text := l.span.not_mem_text (by decide) (by decide)
  have hkind : OneLine (padRight 18 l.kind.describe) := l.kind.describe_fits.2.padRight 18
  -- The columns are on one line each, and so is what stands between them.
  have hcolumns := (hkind.append (by decide : OneLine " ")).append (htext.padRight 12)
  exact (hcolumns.append (by decide : OneLine " @ ")).append hspan

/-- **A lexeme of a source is read back from its row**, if the offsets fit. -/
theorem ofRow_row_of_mem (h : source.utf8ByteSize < 2 ^ 32) (hl : l ∈ lexemes source) :
    Lexeme.ofRow l.row = l := by
  have hspan := (span_of_mem_lexemes h hl).1
  obtain ⟨before, w, rest, -, -, rfl⟩ := (placed_lexemes source).exists_place l hl
  refine Lexeme.ofRow_row hspan ?_
  rw [String.toList_ofList]

end

/-! ### The listing of a source -/

/-- What is written for a token is the row of its lexeme, and a line break. -/
theorem map_listing_tokenize (source : String) :
    (tokenize source .initial).1.map Token.listing =
      (lexemes source).map fun l => l.row ++ "\n" := by
  -- Both sides are written from the kind, the text and the span, which a token has from its lexeme.
  have hmap := congrArg (List.map fun p : TokenKind × String × Span =>
    padRight 18 p.1.describe ++ " " ++ padRight 12 p.2.1 ++ " @ " ++ p.2.2.text ++ "\n")
    (map_tokensOf (lexemes source) .initial)
  rw [List.map_map, List.map_map] at hmap
  exact hmap

/-- **A listing is the rows of the lexemes**, each on a line. -/
theorem tokenListing_eq (source : String) :
    tokenListing source = ended ((lexemes source).map Lexeme.row) := by
  rw [tokenListing, map_listing_tokenize, ended, List.map_map]
  rfl

theorem oneLine_of_mem_rows {source : String} {row : String}
    (hrow : row ∈ (lexemes source).map Lexeme.row) : OneLine row := by
  obtain ⟨l, hl, rfl⟩ := List.mem_map.mp hrow
  exact oneLine_row hl

/-- **The lines of a listing are its rows**, and an empty one after the last break. -/
theorem textLines_tokenListing (source : String) :
    textLines (tokenListing source) = (lexemes source).map Lexeme.row ++ [""] := by
  rw [tokenListing_eq, textLines_ended fun _ => oneLine_of_mem_rows]

/-- **The listing of a source is read back.** -/
theorem readListing_tokenListing {source : String} (h : source.utf8ByteSize < 2 ^ 32) :
    readListing (tokenListing source) = lexemes source := by
  -- Each lexeme is read back from its own row.
  have hread : (lexemes source).map (Lexeme.ofRow ∘ Lexeme.row) = (lexemes source).map id :=
    List.map_congr_left fun l hl => ofRow_row_of_mem h hl
  rw [readListing, textLines_tokenListing, List.dropLast_concat, List.map_map, hread, List.map_id]

/-- **A listing determines the tokens.** It has one line break for each token, and the line with a token's
number is about it. Sources with the same listing have the same tokens. -/
structure ToldByListing (source : String) : Prop where
  breaks : (tokenListing source).toList.count '\n' = (tokenize source .initial).1.length
  /-- The line that has the number of a token is what is written for it, up to its only line break. -/
  described : ∀ (k : ℕ) (t : Token), (tokenize source .initial).1[k]? = some t →
    ∃ row, (textLines (tokenListing source))[k]? = some row ∧ OneLine row ∧ t.listing = row ++ "\n"
  /-- Tokens are equal with their kinds, texts, names and spans. -/
  determined : ∀ other : String, other.utf8ByteSize < 2 ^ 32 →
    tokenListing other = tokenListing source →
    (tokenize other .initial).1 = (tokenize source .initial).1

/-- **The listing of a source determines its tokens**, if their offsets fit into 32 bits. -/
theorem tokens_told_by_listing (source : String) (h : source.utf8ByteSize < 2 ^ 32) :
    ToldByListing source where
  breaks := by
    have hlength := congrArg List.length (map_listing_tokenize source)
    rw [List.length_map, List.length_map] at hlength
    rw [tokenListing_eq, count_ended fun _ => oneLine_of_mem_rows, List.length_map, hlength]
  described k t ht := by
    -- The token has the number of its lexeme, and the lexeme that of its row.
    have hlisting : ((lexemes source).map fun l => l.row ++ "\n")[k]? = some t.listing := by
      rw [← map_listing_tokenize, List.getElem?_map, ht, Option.map_some]
    rw [List.getElem?_map, Option.map_eq_some_iff] at hlisting
    obtain ⟨l, hl, hrow⟩ := hlisting
    have hline : ((lexemes source).map Lexeme.row)[k]? = some l.row := by
      rw [List.getElem?_map, hl, Option.map_some]
    refine ⟨l.row, ?_, oneLine_row (List.mem_of_getElem? hl), hrow.symm⟩
    rw [textLines_tokenListing,
      List.getElem?_append_left (List.getElem?_eq_some_iff.mp hline).1, hline]
  determined other hother heq := by
    -- Both sources are cut into the same lexemes, and the tokens are made of nothing else.
    have hlexemes : lexemes other = lexemes source := by
      rw [← readListing_tokenListing hother, heq, readListing_tokenListing h]
    rw [tokenize, tokenize, hlexemes]

/-- Which blanks are between the tokens, a listing does not tell. The open string here ends like a row. -/
theorem tokens_told_by_listing_blanks :
    tokenListing "say  \"7 @ 0..3" = tokenListing "say\t \"7 @ 0..3" ∧
      (tokenize "say  \"7 @ 0..3" .initial).1 = (tokenize "say\t \"7 @ 0..3" .initial).1 := by
  have hsize : "say\t \"7 @ 0..3".utf8ByteSize < 2 ^ 32 := by decide +kernel
  have hother : "say  \"7 @ 0..3".utf8ByteSize < 2 ^ 32 := by decide +kernel
  have hlisting : tokenListing "say  \"7 @ 0..3" = tokenListing "say\t \"7 @ 0..3" := by
    decide +kernel
  exact ⟨hlisting, (tokens_told_by_listing _ hsize).determined _ hother hlisting⟩

end Silly
