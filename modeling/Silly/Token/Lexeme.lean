import Silly.Text.Blank
import Silly.Token.Kind
import Silly.Span

/-!
# Cutting a source into lexemes

A lexeme is a stretch of the source that makes one token: its text, and the byte offsets between
which it stands. The source is cut by reading it once, character by character, with three things
to remember: the offset, the lexemes already cut, and what the current position is in the middle
of (`Pending`). There are three rules.

* A mark is a lexeme by itself.
* A quote starts a string, which runs through the next quote. It breaks off before the end of the
  line if no quote comes first, and the lexeme is then an unclosed string.
* Any other character that is not blank starts a word, which runs to the next blank or mark. A
  quote inside a word does not end it.

So every lexeme is the longest one that could start where it does.
-/

namespace Silly

/-- A stretch of the source: its text and its byte offsets. -/
structure Lexeme where
  text : String
  start : Nat
  stop : Nat
  deriving DecidableEq

namespace Lexeme

/-- What the lexeme is as a token. -/
def kind (l : Lexeme) : TokenKind := .ofText l.text

/-- Where the lexeme stands, in 32-bit offsets. -/
def span (l : Lexeme) : Span := .ofOffsets l.start l.stop

end Lexeme

/-- What a scan is in the middle of. The characters of an unfinished lexeme are held with the
newest first. -/
inductive Pending
  /-- Between lexemes. -/
  | gap
  /-- In a word that started at `start`. -/
  | word (start : Nat) (read : List Char)
  /-- In a string that started at `start` and has not been closed. -/
  | quoted (start : Nat) (read : List Char)

/-- **A scan of a source**, up to some character. -/
structure Scan where
  /-- The byte offset reached. -/
  offset : Nat
  pending : Pending
  /-- The lexemes cut so far, newest first. -/
  done : List Lexeme

namespace Scan

/-- A scan that has read nothing. -/
def initial : Scan := ⟨0, .gap, []⟩

/-- The lexemes cut so far together with the one that would end at this offset. -/
def cut (s : Scan) : List Lexeme :=
  match s.pending with
  | .gap => s.done
  | .word start read | .quoted start read =>
    ⟨String.ofList read.reverse, start, s.offset⟩ :: s.done

/-- Reading `c` where a new lexeme may start, after the lexemes `done`. -/
def fresh (offset : Nat) (done : List Lexeme) (c : Char) : Scan :=
  let next := offset + c.utf8Size
  if isBlank c then ⟨next, .gap, done⟩
  else if isMark c then ⟨next, .gap, ⟨c.toString, offset, next⟩ :: done⟩
  else if c = '"' then ⟨next, .quoted offset [c], done⟩
  else ⟨next, .word offset [c], done⟩

/-- **Reading one character.** -/
def step (s : Scan) (c : Char) : Scan :=
  match s.pending with
  | .gap => fresh s.offset s.done c
  | .word start read =>
    if isBlank c || isMark c then fresh s.offset s.cut c
    else ⟨s.offset + c.utf8Size, .word start (c :: read), s.done⟩
  | .quoted start read =>
    let next := s.offset + c.utf8Size
    if c = '"' then ⟨next, .gap, ⟨String.ofList (c :: read).reverse, start, next⟩ :: s.done⟩
    else if c = '\n' then ⟨next, .gap, s.cut⟩
    else ⟨next, .quoted start (c :: read), s.done⟩

/-- The scan after a row of characters. -/
def run (s : Scan) (cs : List Char) : Scan := cs.foldl step s

@[simp] theorem run_nil (s : Scan) : s.run [] = s := rfl

@[simp] theorem run_cons (s : Scan) (c : Char) (cs : List Char) :
    s.run (c :: cs) = (s.step c).run cs := rfl

/-- Reading on is reading all at once. -/
theorem run_append (s : Scan) (cs cs' : List Char) : s.run (cs ++ cs') = (s.run cs).run cs' :=
  List.foldl_append

end Scan

/-- **The lexemes of a source**, in order. -/
def lexemes (source : String) : List Lexeme := (Scan.initial.run source.toList).cut.reverse

example : (lexemes "a\"b \"c d\"(-1)").map (·.text) = ["a\"b", "\"c d\"", "(", "-1", ")"] := by
  decide +kernel

end Silly
