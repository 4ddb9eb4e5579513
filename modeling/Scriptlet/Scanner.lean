import Scriptlet.Text.Place
import Scriptlet.Token

/-!
# Scanning

Text is cut into tokens from left to right, one token at a time.

**Lexemes.**  After any white space, the next lexeme is decided by its first character: a run of
letters, a run of digits, a quoted string, a symbol of one or two characters, or a single
character that belongs to none of these and is illegal.  A string has no escapes; one that is
never closed is illegal and reaches to the end of the text.

**The scanner.**  It holds the text on both sides of the place it has come to, and the position of
that place.  At the end of the text it yields the end token again and again.

**Results.**
* `Scanner.text_advance`: reading moves the place and leaves the text as it is.
* `Lexeme.one_le_width`: a lexeme is never empty.
* `Lexeme.kind_ne_eof`: no lexeme is the end token, which therefore stands at the end only.
* `Scanner.next_rest_lt`: every token but the end token shortens the rest, so `tokens` ends.
-/

namespace Scriptlet

/-- White space between tokens. -/
def isSpace (c : Char) : Bool :=
  c == ' ' || c == '\t' || c == '\n' || c == '\r'

/-- The letters words are made of. -/
def isLetter (c : Char) : Bool :=
  ('a' ≤ c && c ≤ 'z') || ('A' ≤ c && c ≤ 'Z') || c == '_'

/-- The digits numerals are made of. -/
def isDigit (c : Char) : Bool :=
  '0' ≤ c && c ≤ '9'

/-- The symbols that are always one character long. -/
def symbol? : Char → Option TokenKind
  | '+' => some .plus
  | '-' => some .minus
  | '*' => some .asterisk
  | '/' => some .slash
  | '<' => some .lt
  | '>' => some .gt
  | ',' => some .comma
  | ';' => some .semicolon
  | ':' => some .colon
  | '(' => some .lparen
  | ')' => some .rparen
  | '\x7b' => some .lbrace
  | '\x7d' => some .rbrace
  | '[' => some .lbracket
  | ']' => some .rbracket
  | _ => none

/-- The symbols that an equals sign may follow: the kind alone, and the kind with it. -/
def paired? : Char → Option (TokenKind × TokenKind)
  | '=' => some (.assign, .eq)
  | '!' => some (.bang, .notEq)
  | _ => none

/-- A lexeme: the kind and text of its token, and how many characters it takes up. -/
structure Lexeme where
  kind : TokenKind
  text : List Char
  width : Nat
  deriving DecidableEq, Repr

namespace Lexeme

/-- The lexeme after an opening quote. -/
def quoted (rest : List Char) : Lexeme :=
  let body := rest.takeWhile (· != '"')
  if body.length < rest.length then ⟨.string, body, body.length + 2⟩
  else ⟨.illegal, '"' :: body, body.length + 1⟩

/-- The lexeme that starts with the character `c`, which is not white space. -/
def read (c : Char) (rest : List Char) : Lexeme :=
  match paired? c with
  | some (alone, doubled) =>
      if rest.head? = some '=' then ⟨doubled, [c, '='], 2⟩ else ⟨alone, [c], 1⟩
  | none =>
      match symbol? c with
      | some kind => ⟨kind, [c], 1⟩
      | none =>
          if c = '"' then quoted rest
          else if isLetter c then
            let word := c :: rest.takeWhile isLetter
            ⟨.ofWord (String.ofList word), word, word.length⟩
          else if isDigit c then
            let numeral := c :: rest.takeWhile isDigit
            ⟨.int, numeral, numeral.length⟩
          else ⟨.illegal, [c], 1⟩

theorem one_le_width_quoted (rest : List Char) : 1 ≤ (quoted rest).width := by
  simp only [quoted]
  split <;> simp

theorem one_le_width (c : Char) (rest : List Char) : 1 ≤ (read c rest).width := by
  unfold read
  repeat' split
  all_goals simp [one_le_width_quoted]

theorem kind_quoted_ne_eof (rest : List Char) : (quoted rest).kind ≠ .eof := by
  simp only [quoted]
  split <;> simp

theorem kind_ne_eof (c : Char) (rest : List Char) : (read c rest).kind ≠ .eof := by
  unfold read
  split
  · next alone doubled h =>
      have hd : doubled ≠ .eof ∧ alone ≠ .eof := by
        unfold paired? at h
        split at h <;> simp_all
        all_goals simp [← h.1, ← h.2]
      split
      · exact hd.1
      · exact hd.2
  · split
    · next kind h =>
        unfold symbol? at h
        split at h <;> simp_all
        all_goals simp [← h]
    · split
      · exact kind_quoted_ne_eof rest
      · split
        · simp only [TokenKind.ofWord]
          split <;> simp
        · split <;> simp

end Lexeme

/-- A place in a text that is being read. -/
structure Scanner where
  /-- The characters already read, the last one first. -/
  before : List Char
  /-- The characters not yet read. -/
  rest : List Char
  /-- The position of the first character of `rest`. -/
  position : Position
  deriving DecidableEq, Repr

namespace Scanner

/-- The start of a text. -/
def ofString (source : String) : Scanner :=
  ⟨[], source.toList, .start⟩

/-- The whole text. -/
def text (s : Scanner) : List Char :=
  s.before.reverse ++ s.rest

/-- The number of characters already read. -/
def offset (s : Scanner) : Nat :=
  s.before.length

/-- The next `n` characters, or fewer at the end of the text. -/
def upcoming (s : Scanner) (n : Nat) : List Char :=
  s.rest.take n

/-- Reads `n` characters, or fewer at the end of the text. -/
def advance (s : Scanner) (n : Nat) : Scanner :=
  ⟨(s.upcoming n).reverse ++ s.before, s.rest.drop n, s.position.advance (s.upcoming n)⟩

/-- The place so many characters after the next one; before the start, it counts from the end. -/
def placeAhead? (s : Scanner) (ahead : Int) : Option Nat :=
  Text.place? s.text.length (s.offset + ahead)

/-- The character at a place, if the place is not past the end. -/
def charAt? (s : Scanner) (place : Nat) : Option Char :=
  s.text[place]?

/-- How many characters a cut takes that ends so many characters ahead; before the start, its end
counts from the end of the text. -/
def reach (s : Scanner) (ahead : Int) : Nat :=
  Text.cutEnd s.text.length (s.offset + ahead) - s.offset

/-- Reads the white space in front. -/
def skipSpace (s : Scanner) : Scanner :=
  s.advance (s.rest.takeWhile isSpace).length

/-- Reads the whole text. -/
def finish (s : Scanner) : Scanner :=
  s.advance s.rest.length

/-- The token that starts right here, and the scanner after it. -/
def tokenHere (s : Scanner) : Token × Scanner :=
  match s.rest with
  | [] => (⟨.eof, "", s.position⟩, s)
  | c :: rest =>
      let lexeme := Lexeme.read c rest
      (⟨lexeme.kind, String.ofList lexeme.text, s.position⟩, s.advance lexeme.width)

/-- The next token, and the scanner after it. -/
def next (s : Scanner) : Token × Scanner :=
  s.skipSpace.tokenHere

@[simp] theorem rest_advance (s : Scanner) (n : Nat) : (s.advance n).rest = s.rest.drop n := rfl

@[simp] theorem text_ofString (source : String) : (ofString source).text = source.toList := rfl

theorem text_advance (s : Scanner) (n : Nat) : (s.advance n).text = s.text := by
  simp [text, advance, upcoming]

theorem offset_advance (s : Scanner) (n : Nat) :
    (s.advance n).offset = s.offset + min n s.rest.length := by
  simp only [offset, advance, upcoming, List.length_append, List.length_reverse,
    List.length_take]
  omega

theorem reach_natCast (s : Scanner) (n : Nat) : s.reach n = n := by
  have h : (s.offset + n : Int) = ((s.offset + n : Nat) : Int) := by omega
  rw [reach, h, Text.cutEnd_natCast]
  omega

theorem rest_skipSpace_le (s : Scanner) : s.skipSpace.rest.length ≤ s.rest.length := by
  simp [skipSpace]

theorem tokenHere_rest_lt (s : Scanner) (h : s.tokenHere.1.kind ≠ .eof) :
    s.tokenHere.2.rest.length < s.rest.length := by
  unfold tokenHere at h ⊢
  split at h
  · simp at h
  · next c rest hr =>
      have hw := Lexeme.one_le_width c rest
      simp only [hr, rest_advance, List.length_drop, List.length_cons]
      omega

theorem tokenHere_rest_of_eof (s : Scanner) (h : s.tokenHere.1.kind = .eof) :
    s.tokenHere.2.rest = [] := by
  unfold tokenHere at h ⊢
  split at h
  · next hr => simp [hr]
  · exact absurd h (Lexeme.kind_ne_eof _ _)

theorem next_rest_lt (s : Scanner) (h : s.next.1.kind ≠ .eof) :
    s.next.2.rest.length < s.rest.length :=
  Nat.lt_of_lt_of_le (tokenHere_rest_lt _ h) s.rest_skipSpace_le

theorem next_rest_of_eof (s : Scanner) (h : s.next.1.kind = .eof) : s.next.2.rest = [] :=
  tokenHere_rest_of_eof _ h

/-- The tokens of the rest of the text; the last of them, and no other, is the end token. -/
def tokens (s : Scanner) : List Token :=
  if _h : s.next.1.kind = .eof then [s.next.1]
  else s.next.1 :: s.next.2.tokens
termination_by s.rest.length
decreasing_by exact s.next_rest_lt _h

end Scanner

/-- The tokens of a text, the end token included. -/
def tokenize (source : String) : List Token :=
  (Scanner.ofString source).tokens

end Scriptlet
