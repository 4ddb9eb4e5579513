import Scriptlet.Proofs.Scanner.Words

/-!
# Where tokens stand

The tokens of a text and the white space between them make up the text again, and every token knows
where it stands in it.

**Positions.**  `Position.after cs` counts: the line after the characters `cs` is one more than the
newlines in them, the column one more than the characters since the last newline.

**Pieces.**  A piece is a token with the white space in front of it.  The token is spelled as its text,
put back between quotes if it is a string.

**Method.**  A scanner is *placed* if its position is that after the characters it has read.  Reading
keeps it placed, however many characters are read at once, so a string with newlines in it needs no
case of its own.

**Results.**
* `Scanner.placed_advance`: what one movement keeps.
* `Lexeme.take_width_read`: a lexeme takes up the characters that spell its token.
* `tokenize_covers`: the text is cut into pieces, each at its position, and white space at the end.
-/

namespace Scriptlet

namespace Position

/-- The position after the characters, counted from the start of the text. -/
def after (cs : List Char) : Position :=
  ⟨1 + cs.count '\n', 1 + (cs.reverse.takeWhile (· ≠ '\n')).length⟩

theorem after_concat (cs : List Char) (c : Char) : after (cs ++ [c]) = (after cs).next c := by
  by_cases hc : c = '\n'
  · simp [after, next, hc, Nat.add_assoc]
  · simp [after, next, hc, Nat.add_assoc]

theorem advance_after (read cs : List Char) : (after read).advance cs = after (read ++ cs) := by
  induction cs generalizing read with
  | nil => rw [advance_nil, List.append_nil]
  | cons c cs ih => rw [advance_cons, ← after_concat, ih, List.append_assoc, List.singleton_append]

end Position

theorem Token.eq_of_word {t : Token} {w : Word} (h : t.word = w) :
    t = ⟨w.kind, w.text, t.position⟩ := by
  rw [← h]
  rfl

/-- The characters that a token takes up: its text, between quotes if it is a string. -/
def Token.spelling (t : Token) : List Char :=
  if t.kind = .string then '"' :: (t.text.toList ++ ['"']) else t.text.toList

theorem TokenKind.ofWord_ne_string (text : String) : ofWord text ≠ .string := by
  unfold ofWord
  split
  all_goals decide

namespace Lexeme

/-- The token of a lexeme that stands at a position. -/
def token (lexeme : Lexeme) (p : Position) : Token :=
  ⟨lexeme.kind, String.ofList lexeme.text, p⟩

theorem spelling_token {lexeme : Lexeme} (h : lexeme.kind ≠ .string) (p : Position) :
    (lexeme.token p).spelling = lexeme.text := by
  have hkind : (lexeme.token p).kind ≠ .string := h
  rw [Token.spelling, if_neg hkind]
  exact String.toList_ofList

/-- A string reaches to the next quote; one that is never closed reaches to the end of the text. -/
theorem quoted_cases (rest : List Char) :
    (∃ body after, rest = body ++ '"' :: after ∧ quoted rest = ⟨.string, body, body.length + 2⟩) ∨
      quoted rest = ⟨.illegal, '"' :: rest, rest.length + 1⟩ := by
  have hsplit := List.takeWhile_append_dropWhile (p := (· != '"')) (l := rest)
  cases hafter : rest.dropWhile (· != '"') with
  | nil =>
      rw [hafter, List.append_nil] at hsplit
      right
      simp only [quoted, hsplit]
      rw [if_neg (Nat.lt_irrefl _)]
  | cons d after =>
      have hd : d = '"' := by
        have hstop := List.head?_dropWhile_not (· != '"') rest
        rw [hafter] at hstop
        simpa using hstop
      rw [hafter, hd] at hsplit
      have hlength := congrArg List.length hsplit
      rw [List.length_append, List.length_cons] at hlength
      refine Or.inl ⟨rest.takeWhile (· != '"'), after, hsplit.symm, ?_⟩
      simp only [quoted]
      rw [if_pos (by omega)]

theorem take_width_quoted (rest : List Char) (p : Position) :
    ('"' :: rest).take (quoted rest).width = ((quoted rest).token p).spelling := by
  rcases quoted_cases rest with ⟨body, after, hrest, hquoted⟩ | hquoted
  · have hwhole : '"' :: (body ++ '"' :: after) = '"' :: (body ++ ['"']) ++ after := by simp
    rw [hquoted, hrest, hwhole, List.take_left' (by simp), token, Token.spelling, if_pos rfl,
      String.toList_ofList]
  · rw [hquoted, spelling_token (by simp), List.take_succ_cons, List.take_length]

/-- A run of one class after its first character. -/
theorem take_run (q : Char → Bool) (c : Char) (rest : List Char) :
    (c :: rest).take (c :: rest.takeWhile q).length = c :: rest.takeWhile q := by
  rw [List.length_cons, List.take_succ_cons,
    ← List.prefix_iff_eq_take.mp (List.takeWhile_prefix q)]

/-- A lexeme takes up the characters that spell its token. -/
theorem take_width_read (c : Char) (rest : List Char) (p : Position) :
    (c :: rest).take (read c rest).width = ((read c rest).token p).spelling := by
  unfold read
  cases hpaired : paired? c with
  | some kinds =>
      have hkinds : kinds.1 ≠ .string ∧ kinds.2 ≠ .string := by
        unfold paired? at hpaired
        split at hpaired
        · cases hpaired
          decide
        · cases hpaired
          decide
        · cases hpaired
      simp only
      split
      · next hequals =>
          rw [spelling_token hkinds.2]
          cases rest with
          | nil => cases hequals
          | cons d rest =>
              cases hequals
              rfl
      · rw [spelling_token hkinds.1]
        rfl
  | none =>
      cases hsymbol : symbol? c with
      | some kind =>
          have hkind : kind ≠ .string := by
            rintro rfl
            unfold symbol? at hsymbol
            split at hsymbol
            all_goals cases hsymbol
          simp only
          rw [spelling_token hkind]
          rfl
      | none =>
          simp only
          split
          · next hquote =>
              rw [hquote]
              exact take_width_quoted rest p
          · split
            · rw [spelling_token (TokenKind.ofWord_ne_string _)]
              exact take_run isLetter c rest
            · split
              · rw [spelling_token (by simp)]
                exact take_run isDigit c rest
              · rw [spelling_token (by simp)]
                rfl

end Lexeme

namespace Scanner

/-- The position of a scanner is that after the characters it has read. -/
def Placed (s : Scanner) : Prop :=
  s.position = .after s.before.reverse

theorem placed_ofString (source : String) : (ofString source).Placed := rfl

theorem read_advance (s : Scanner) (n : Nat) :
    (s.advance n).before.reverse = s.before.reverse ++ s.rest.take n := by
  simp [advance, upcoming]

/-- Reading keeps a scanner placed. -/
theorem placed_advance {s : Scanner} (h : s.Placed) (n : Nat) : (s.advance n).Placed := by
  have hposition : s.position = .after s.before.reverse := h
  rw [Placed, read_advance, ← Position.advance_after, ← hposition]
  rfl

/-- The white space that a scanner skips. -/
def gap (s : Scanner) : List Char :=
  s.rest.takeWhile isSpace

theorem read_skipSpace (s : Scanner) : s.skipSpace.before.reverse = s.before.reverse ++ s.gap := by
  rw [skipSpace, read_advance, ← List.prefix_iff_eq_take.mp (List.takeWhile_prefix isSpace), gap]

theorem text_next (s : Scanner) : s.next.2.text = s.text := by
  have hskip : s.skipSpace.text = s.text := s.text_advance _
  unfold next tokenHere
  split
  · exact hskip
  · rw [text_advance, hskip]

/-- The next token stands after the white space and is spelled as the characters taken up. -/
theorem next_of_placed {s : Scanner} (h : s.Placed) :
    s.next.2.Placed ∧ s.next.1.position = .after (s.before.reverse ++ s.gap) ∧
      s.next.2.before.reverse = s.before.reverse ++ (s.gap ++ s.next.1.spelling) := by
  have hskip : s.skipSpace.Placed := placed_advance h _
  have hposition : s.skipSpace.position = .after (s.before.reverse ++ s.gap) := by
    rw [← read_skipSpace]
    exact hskip
  unfold next tokenHere
  split
  · refine ⟨hskip, hposition, ?_⟩
    rw [read_skipSpace]
    simp [Token.spelling]
  · next c rest hrest =>
      refine ⟨placed_advance hskip _, hposition, ?_⟩
      rw [read_advance, read_skipSpace, hrest, Lexeme.take_width_read c rest s.skipSpace.position,
        List.append_assoc]
      rfl

end Scanner

/-- A token with the white space in front of it. -/
structure Piece where
  gap : List Char
  token : Token

def Piece.text (piece : Piece) : List Char :=
  piece.gap ++ piece.token.spelling

section Pieces

/-- What is said of the pieces that a scanner finds ahead, and of the white space after them. -/
structure Scanner.Covered (s : Scanner) (pieces : List Piece) (last : List Char) : Prop where
  tokens_eq : s.tokens = pieces.map Piece.token ++ [⟨.eof, "", .after s.text⟩]
  rest_eq : s.rest = pieces.flatMap Piece.text ++ last
  last_blank : last.all isSpace = true
  blank : ∀ piece ∈ pieces, piece.gap.all isSpace = true
  kind_ne_eof : ∀ piece ∈ pieces, piece.token.kind ≠ .eof
  position_eq : ∀ before piece later, pieces = before ++ piece :: later →
    piece.token.position = .after (s.before.reverse ++ (before.flatMap Piece.text ++ piece.gap))

namespace Scanner

variable {s : Scanner}

/-- With white space only ahead, there is no piece. -/
theorem covered_of_eof (hs : s.Placed) (h : s.next.1.kind = .eof) : s.Covered [] s.rest := by
  have hrest : s.next.2.rest = [] := s.next_rest_of_eof h
  obtain ⟨-, hposition, hread⟩ := next_of_placed hs
  have hspelling : s.next.1.spelling = [] := by
    have hword := word_next_of_eof h
    have htext : s.next.1.text = "" := congrArg Word.text hword
    rw [Token.spelling, h, htext]
    rfl
  have htext : s.before.reverse ++ s.gap = s.text := by
    rw [← s.text_next, text, hrest, hread, hspelling, List.append_nil, List.append_nil]
  have hgap : s.gap = s.rest := List.append_cancel_left htext
  refine ⟨?_, rfl, ?_, by simp, by simp, by simp⟩
  · have htoken : s.next.1 = ⟨.eof, "", .after s.text⟩ := by
      rw [← htext, ← hposition]
      exact Token.eq_of_word (word_next_of_eof h)
    rw [tokens_of_eof h, htoken]
    rfl
  · rw [← hgap]
    exact List.all_takeWhile

/-- The next token and the white space in front of it are the first piece. -/
theorem covered_of_next (hs : s.Placed) (h : s.next.1.kind ≠ .eof) {pieces : List Piece}
    {last : List Char} (hcovered : s.next.2.Covered pieces last) :
    s.Covered (⟨s.gap, s.next.1⟩ :: pieces) last := by
  obtain ⟨-, hposition, hread⟩ := next_of_placed hs
  have hrest : s.rest = s.gap ++ s.next.1.spelling ++ s.next.2.rest := by
    have htext := s.text_next
    rw [text, text, hread, List.append_assoc] at htext
    exact (List.append_cancel_left htext).symm
  refine ⟨?_, ?_, hcovered.last_blank, ?_, ?_, ?_⟩
  · rw [tokens_of_ne_eof h, hcovered.tokens_eq, text_next]
    rfl
  · rw [hrest, hcovered.rest_eq, List.flatMap_cons]
    simp only [Piece.text, List.append_assoc]
  · exact List.forall_mem_cons.mpr ⟨List.all_takeWhile, hcovered.blank⟩
  · exact List.forall_mem_cons.mpr ⟨h, hcovered.kind_ne_eof⟩
  · intro before piece later hpieces
    cases before with
    | nil =>
        cases hpieces
        exact hposition
    | cons first before =>
        obtain ⟨rfl, hlater⟩ := List.cons.inj hpieces
        rw [hcovered.position_eq before piece later hlater, hread, List.flatMap_cons, Piece.text]
        simp only [List.append_assoc]

theorem exists_covered (s : Scanner) (hs : s.Placed) : ∃ pieces last, s.Covered pieces last := by
  by_cases h : s.next.1.kind = .eof
  · exact ⟨[], s.rest, covered_of_eof hs h⟩
  · have hlt := s.next_rest_lt h
    obtain ⟨pieces, last, hcovered⟩ := exists_covered s.next.2 (next_of_placed hs).1
    exact ⟨_, last, covered_of_next hs h hcovered⟩
termination_by s.rest.length

end Scanner

/-- The tokens of a text end in the end token, which stands at the end of the text and nowhere else.
The others, each with white space in front, make up the text, with white space after the last; each
stands where the text before it ends. -/
theorem tokenize_covers (source : String) :
    ∃ (pieces : List Piece) (last : List Char),
      tokenize source = pieces.map Piece.token ++ [⟨.eof, "", .after source.toList⟩] ∧
      (∀ piece ∈ pieces, piece.token.kind ≠ .eof) ∧
      source.toList = pieces.flatMap Piece.text ++ last ∧
      last.all isSpace = true ∧
      (∀ piece ∈ pieces, piece.gap.all isSpace = true) ∧
      ∀ before piece later, pieces = before ++ piece :: later →
        piece.token.position = .after (before.flatMap Piece.text ++ piece.gap) := by
  obtain ⟨pieces, last, hcovered⟩ :=
    (Scanner.ofString source).exists_covered (Scanner.placed_ofString source)
  exact ⟨pieces, last, hcovered.tokens_eq, hcovered.kind_ne_eof, hcovered.rest_eq,
    hcovered.last_blank, hcovered.blank, hcovered.position_eq⟩

/-- A string with a newline in it moves what follows to the next line. -/
example : (tokenize "a\n \"b\nc\"==\"").map Token.position =
    [⟨1, 1⟩, ⟨2, 2⟩, ⟨3, 3⟩, ⟨3, 5⟩, ⟨3, 6⟩] := by
  decide +kernel

end Pieces

end Scriptlet
