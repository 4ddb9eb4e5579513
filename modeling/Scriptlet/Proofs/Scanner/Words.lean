import Scriptlet.Scanner

/-!
# Words

A word is a token without its place in the text: its kind and its text.

**What a scanner has ahead.**  `Scanner.words` lists the words from the place it has come to up to
the end of the text, the end token left out.  Reading a token takes the first word away; at the end
of the text there is none to take, and the list stays empty.

**Results.**
* `Scanner.words_next`: reading a token drops the first word.
* `Scanner.kind_next`: the kind of the next token is that of the first word.
* `Scanner.words_eq`: the words depend on the characters ahead alone, so `wordsOf` is a function of
  text.
* `Scanner.map_word_tokens`: the words of all tokens are the words ahead and that of the end token.
-/

namespace Scriptlet

/-- A token without its position. -/
structure Word where
  kind : TokenKind
  text : String
  deriving DecidableEq, Repr

/-- The word of a token. -/
def Token.word (t : Token) : Word :=
  ⟨t.kind, t.text⟩

@[simp] theorem Token.kind_word (t : Token) : t.word.kind = t.kind := rfl

/-- The kind of the first of several words, or that of the end token. -/
def kindAhead : List Word → TokenKind
  | [] => .eof
  | w :: _ => w.kind

@[simp] theorem kindAhead_nil : kindAhead [] = .eof := rfl

@[simp] theorem kindAhead_cons (w : Word) (ws : List Word) : kindAhead (w :: ws) = w.kind := rfl

theorem drop_length_takeWhile (p : Char → Bool) (cs : List Char) :
    cs.drop (cs.takeWhile p).length = cs.dropWhile p := by
  have hsplit := List.takeWhile_append_dropWhile (p := p) (l := cs)
  calc cs.drop (cs.takeWhile p).length
      = (cs.takeWhile p ++ cs.dropWhile p).drop (cs.takeWhile p).length := by rw [hsplit]
    _ = cs.dropWhile p := List.drop_left

namespace Scanner

theorem tokens_of_eof {s : Scanner} (h : s.next.1.kind = .eof) : s.tokens = [s.next.1] := by
  rw [tokens, dif_pos h]

theorem tokens_of_ne_eof {s : Scanner} (h : s.next.1.kind ≠ .eof) :
    s.tokens = s.next.1 :: s.next.2.tokens := by
  rw [tokens, dif_neg h]

/-- The words ahead, without the end token. -/
def words (s : Scanner) : List Word :=
  (s.tokens.filter fun t => t.kind ≠ .eof).map Token.word

theorem words_of_eof {s : Scanner} (h : s.next.1.kind = .eof) : s.words = [] := by
  rw [words, tokens_of_eof h]
  simp [h]

theorem words_of_ne_eof {s : Scanner} (h : s.next.1.kind ≠ .eof) :
    s.words = s.next.1.word :: s.next.2.words := by
  rw [words, tokens_of_ne_eof h]
  simp [h, words]

theorem kind_next (s : Scanner) : s.next.1.kind = kindAhead s.words := by
  by_cases h : s.next.1.kind = .eof
  · rw [words_of_eof h, h, kindAhead_nil]
  · rw [words_of_ne_eof h, kindAhead_cons, Token.kind_word]

theorem words_eq_nil_iff (s : Scanner) : s.words = [] ↔ s.next.1.kind = .eof := by
  constructor
  · intro h
    rw [kind_next, h, kindAhead_nil]
  · exact words_of_eof

theorem rest_skipSpace (s : Scanner) : s.skipSpace.rest = s.rest.dropWhile isSpace :=
  drop_length_takeWhile isSpace s.rest

/-- With white space only ahead, the end token is next. -/
theorem kind_next_of_blank {s : Scanner} (h : s.rest.dropWhile isSpace = []) :
    s.next.1.kind = .eof := by
  rw [← rest_skipSpace] at h
  simp only [next, tokenHere, h]

/-- At the end of the text, the end token comes again. -/
theorem kind_next_next_of_eof {s : Scanner} (h : s.next.1.kind = .eof) :
    s.next.2.next.1.kind = .eof := by
  apply kind_next_of_blank
  rw [s.next_rest_of_eof h, List.dropWhile_nil]

/-- The end token has no text. -/
theorem word_next_of_eof {s : Scanner} (h : s.next.1.kind = .eof) : s.next.1.word = ⟨.eof, ""⟩ := by
  simp only [next, tokenHere] at h ⊢
  split at h
  · rfl
  · next c rest _ => exact absurd h (Lexeme.kind_ne_eof c rest)

/-- The words of the tokens up to the end token are those ahead and its own. -/
theorem map_word_tokens (s : Scanner) : s.tokens.map Token.word = s.words ++ [⟨.eof, ""⟩] := by
  by_cases h : s.next.1.kind = .eof
  · rw [tokens_of_eof h, words_of_eof h, List.map_singleton, word_next_of_eof h, List.nil_append]
  · have hlt := s.next_rest_lt h
    rw [tokens_of_ne_eof h, words_of_ne_eof h, List.map_cons, map_word_tokens s.next.2,
      List.cons_append]
termination_by s.rest.length

theorem words_next (s : Scanner) : s.next.2.words = s.words.tail := by
  by_cases h : s.next.1.kind = .eof
  · rw [words_of_eof h, words_of_eof (kind_next_next_of_eof h), List.tail_nil]
  · rw [words_of_ne_eof h, List.tail_cons]

/-- The next token, when there is a word ahead. -/
theorem word_next {s : Scanner} {w : Word} {ws : List Word} (h : s.words = w :: ws) :
    s.next.1.word = w := by
  have hk : s.next.1.kind ≠ .eof := by
    intro hk
    rw [words_of_eof hk] at h
    cases h
  rw [words_of_ne_eof hk] at h
  exact (List.cons.inj h).1

/-- No word ahead is the end token. -/
theorem kind_ne_eof_of_words {s : Scanner} {w : Word} {ws : List Word} (h : s.words = w :: ws) :
    w.kind ≠ .eof := by
  intro hk
  have hn : s.next.1.kind = .eof := by
    rw [kind_next, h, kindAhead_cons, hk]
  rw [words_of_eof hn] at h
  cases h

end Scanner

section Characters

/-- The words of a text, given as characters. -/
def wordsOf (cs : List Char) : List Word :=
  (⟨[], cs, .start⟩ : Scanner).words

namespace Scanner

/-- With more than white space ahead, the next token is the lexeme after it. -/
theorem next_of_rest {s : Scanner} {c : Char} {rest : List Char}
    (h : s.rest.dropWhile isSpace = c :: rest) :
    s.next.1.word = ⟨(Lexeme.read c rest).kind, String.ofList (Lexeme.read c rest).text⟩ ∧
      s.next.2.rest = (c :: rest).drop (Lexeme.read c rest).width := by
  rw [← rest_skipSpace] at h
  constructor
  · simp only [next, tokenHere, h]
    rfl
  · simp only [next, tokenHere, h, rest_advance]

theorem words_congr (s t : Scanner) (h : s.rest = t.rest) : s.words = t.words := by
  cases hs : s.rest.dropWhile isSpace with
  | nil =>
      have ht : t.rest.dropWhile isSpace = [] := by rw [← h, hs]
      rw [words_of_eof (kind_next_of_blank hs), words_of_eof (kind_next_of_blank ht)]
  | cons c rest =>
      have ht : t.rest.dropWhile isSpace = c :: rest := by rw [← h, hs]
      obtain ⟨hws, hrs⟩ := next_of_rest hs
      obtain ⟨hwt, hrt⟩ := next_of_rest ht
      have hks : s.next.1.kind ≠ .eof := by
        rw [← Token.kind_word, hws]
        exact Lexeme.kind_ne_eof c rest
      have hkt : t.next.1.kind ≠ .eof := by
        rw [← Token.kind_word, hwt]
        exact Lexeme.kind_ne_eof c rest
      have hlt := s.next_rest_lt hks
      rw [words_of_ne_eof hks, words_of_ne_eof hkt, hws, hwt,
        words_congr s.next.2 t.next.2 (by rw [hrs, hrt])]
termination_by s.rest.length

theorem words_eq (s : Scanner) : s.words = wordsOf s.rest :=
  words_congr s ⟨[], s.rest, .start⟩ rfl

end Scanner

/-- White space alone has no words. -/
theorem wordsOf_of_blank {cs : List Char} (h : cs.dropWhile isSpace = []) : wordsOf cs = [] :=
  Scanner.words_of_eof (Scanner.kind_next_of_blank h)

@[simp] theorem wordsOf_nil : wordsOf [] = [] :=
  wordsOf_of_blank rfl

/-- The first lexeme after white space is the first word, and the rest of the text has the rest. -/
theorem wordsOf_of_rest {cs : List Char} {c : Char} {rest : List Char}
    (h : cs.dropWhile isSpace = c :: rest) :
    wordsOf cs = ⟨(Lexeme.read c rest).kind, String.ofList (Lexeme.read c rest).text⟩ ::
      wordsOf ((c :: rest).drop (Lexeme.read c rest).width) := by
  obtain ⟨hw, hr⟩ := Scanner.next_of_rest (s := ⟨[], cs, .start⟩) h
  have hk : (⟨[], cs, .start⟩ : Scanner).next.1.kind ≠ .eof := by
    rw [← Token.kind_word, hw]
    exact Lexeme.kind_ne_eof c rest
  rw [wordsOf, Scanner.words_of_ne_eof hk, hw, Scanner.words_eq, hr]

/-- Induction along the lexemes of a text. -/
theorem lexeme_induction {P : List Char → Prop}
    (blank : ∀ cs, cs.dropWhile isSpace = [] → P cs)
    (more : ∀ cs c rest, cs.dropWhile isSpace = c :: rest →
      P ((c :: rest).drop (Lexeme.read c rest).width) → P cs)
    (cs : List Char) : P cs := by
  cases hcs : cs.dropWhile isSpace with
  | nil => exact blank cs hcs
  | cons c rest =>
      have hwidth := Lexeme.one_le_width c rest
      have hsuffix : rest.length + 1 ≤ cs.length := by
        rw [← List.length_cons, ← hcs]
        exact (List.dropWhile_sublist _).length_le
      exact more cs c rest hcs (lexeme_induction blank more _)
termination_by cs.length
decreasing_by
  rw [List.length_drop, List.length_cons]
  omega

end Characters

end Scriptlet
