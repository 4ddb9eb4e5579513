import Scriptlet.Text.Joined
import Scriptlet.Proofs.Scanner.Positions
import Scriptlet.Proofs.Scanner.Braces

/-!
# Scanning line by line

A text can be scanned line by line, as long as no token of it reaches beyond the end of its line.

**What a scanner finds.**  `found p cs` lists the tokens of the characters `cs`, the first of which stands at
`p`, without the end token.  It depends on nothing else: what was read before counts only for the position.

**Lines.**  Between two lexemes a newline is white space like any other, except for what it does to the
position.  A lexeme that is still open at a newline is a string, and takes the newline up.  So a newline
that no token holds parts what stands before it from what comes after (`found_append_newline`).

**Moving.**  A text that starts further down has the same tokens further down (`found_down`).

**Results.**
* `found_pieces`: the tokens of a text are those of its lines, one after the other.
* `filter_found`: the tokens on one line are those of the line.
-/

namespace Scriptlet

section Pieces

variable {separator : Char}

namespace Text

theorem pieces_of_not_mem {cs : List Char} (h : separator ∉ cs) : pieces separator cs = [cs] := by
  induction cs with
  | nil => rfl
  | cons c cs ih =>
      have hc := List.ne_of_not_mem_cons h
      have hcs := List.not_mem_of_not_mem_cons h
      rw [pieces, if_neg (Ne.symm hc), ih hcs]

theorem pieces_append {line : List Char} (h : separator ∉ line) (more : List Char) :
    pieces separator (line ++ separator :: more) = line :: pieces separator more := by
  induction line with
  | nil => rw [List.nil_append, pieces, if_pos rfl]
  | cons c cs ih =>
      have hc := List.ne_of_not_mem_cons h
      have hcs := List.not_mem_of_not_mem_cons h
      rw [List.cons_append, pieces, if_neg (Ne.symm hc), ih hcs]

/-- Induction along the pieces of a text. -/
theorem pieces_induction (separator : Char) {P : List Char → Prop}
    (last : ∀ line, separator ∉ line → P line)
    (more : ∀ line rest, separator ∉ line → P rest → P (line ++ separator :: rest))
    (cs : List Char) : P cs := by
  by_cases h : separator ∈ cs
  · obtain ⟨line, rest, hcs, hline⟩ := List.eq_append_cons_of_mem h
    have hshorter : rest.length < cs.length := by
      rw [hcs, List.length_append, List.length_cons]
      omega
    rw [hcs]
    exact more line rest hline (pieces_induction separator last more rest)
  · exact last cs h
termination_by cs.length

theorem not_mem_of_mem_pieces {cs line : List Char} (h : line ∈ pieces separator cs) :
    separator ∉ line := by
  induction cs using pieces_induction separator with
  | last cs hcs =>
      rw [pieces_of_not_mem hcs, List.mem_singleton] at h
      exact h ▸ hcs
  | more first rest hfirst ih =>
      rw [pieces_append hfirst] at h
      rcases List.mem_cons.mp h with rfl | h
      · exact hfirst
      · exact ih h

end Text

end Pieces

namespace Position

theorem advance_of_not_mem {cs : List Char} (h : '\n' ∉ cs) (p : Position) :
    p.advance cs = ⟨p.line, p.column + cs.length⟩ := by
  induction cs generalizing p with
  | nil => rfl
  | cons c cs ih =>
      have hc := List.ne_of_not_mem_cons h
      have hcs := List.not_mem_of_not_mem_cons h
      have hnext : p.next c = ⟨p.line, p.column + 1⟩ := if_neg (Ne.symm hc)
      rw [advance_cons, hnext, ih hcs, List.length_cons]
      simp only [mk.injEq, true_and]
      omega

theorem line_advance {cs : List Char} (h : '\n' ∉ cs) (p : Position) :
    (p.advance cs).line = p.line := by
  rw [advance_of_not_mem h]

/-- A newline starts the next line. -/
theorem advance_newline {cs : List Char} (h : '\n' ∉ cs) (p : Position) :
    p.advance (cs ++ ['\n']) = ⟨p.line + 1, 1⟩ := by
  rw [advance_append, advance_of_not_mem h]
  rfl

/-- The same column so many lines further down. -/
def down (p : Position) (k : Nat) : Position :=
  ⟨p.line + k, p.column⟩

theorem advance_down (p : Position) (k : Nat) (cs : List Char) :
    (p.down k).advance cs = (p.advance cs).down k := by
  induction cs generalizing p with
  | nil => rfl
  | cons c cs ih =>
      have hnext : (p.down k).next c = (p.next c).down k := by
        unfold next down
        split
        · simp only [mk.injEq, and_true]
          omega
        · rfl
      rw [advance_cons, advance_cons, hnext, ih]

end Position

/-- The token so many lines further down. -/
def Token.down (t : Token) (k : Nat) : Token :=
  { t with position := t.position.down k }

namespace Scanner

/-- What was read before has no influence on the tokens ahead. -/
theorem tokens_congr (s t : Scanner) (hrest : s.rest = t.rest) (hposition : s.position = t.position) :
    s.tokens = t.tokens := by
  have hskip : s.skipSpace.rest = t.skipSpace.rest ∧ s.skipSpace.position = t.skipSpace.position := by
    simp only [skipSpace, advance, upcoming, hrest, hposition, and_self]
  have hnext : s.next.1 = t.next.1 ∧ s.next.2.rest = t.next.2.rest ∧
      s.next.2.position = t.next.2.position := by
    unfold next tokenHere
    rw [← hskip.1]
    split
    · exact ⟨by rw [hskip.2], hskip⟩
    · simp only [advance, upcoming, hskip.1, hskip.2, and_self]
  obtain ⟨htoken, hlater⟩ := hnext
  by_cases h : s.next.1.kind = .eof
  · rw [tokens_of_eof h, tokens_of_eof (htoken ▸ h), htoken]
  · have hlt := s.next_rest_lt h
    rw [tokens_of_ne_eof h, tokens_of_ne_eof (s := t) (htoken ▸ h), htoken,
      tokens_congr s.next.2 t.next.2 hlater.1 hlater.2]
termination_by s.rest.length

end Scanner

section Found

/-- The tokens of characters, the first of which stands at a position, without the end token. -/
def found (p : Position) (cs : List Char) : List Token :=
  (⟨[], cs, p⟩ : Scanner).tokens.filter fun t => t.kind ≠ .eof

theorem found_start (text : String) :
    found .start text.toList = (tokenize text).filter fun t => t.kind ≠ .eof := rfl

theorem word_found (p : Position) (cs : List Char) : (found p cs).map Token.word = wordsOf cs :=
  Scanner.words_eq ⟨[], cs, p⟩

theorem found_of_blank {cs : List Char} (h : cs.dropWhile isSpace = []) (p : Position) :
    found p cs = [] := by
  have heof : (⟨[], cs, p⟩ : Scanner).next.1.kind = .eof := Scanner.kind_next_of_blank h
  rw [found, Scanner.tokens_of_eof heof, List.filter_cons_of_neg (by simp [heof]), List.filter_nil]

/-- The first lexeme stands after the white space; what follows it starts where it ends. -/
theorem found_of_rest {cs : List Char} {c : Char} {rest : List Char}
    (h : cs.dropWhile isSpace = c :: rest) (p : Position) :
    found p cs =
      (Lexeme.read c rest).token (p.advance (cs.takeWhile isSpace)) ::
        found (p.advance (cs.takeWhile isSpace ++ (c :: rest).take (Lexeme.read c rest).width))
          ((c :: rest).drop (Lexeme.read c rest).width) := by
  let s : Scanner := ⟨[], cs, p⟩
  have hrest : s.skipSpace.rest = c :: rest := by rw [Scanner.rest_skipSpace, ← h]
  have hposition : s.skipSpace.position = p.advance (cs.takeWhile isSpace) := by
    show p.advance (cs.take _) = _
    rw [← List.prefix_iff_eq_take.mp (List.takeWhile_prefix isSpace)]
  have hnext : s.next = ((Lexeme.read c rest).token s.skipSpace.position,
      s.skipSpace.advance (Lexeme.read c rest).width) := by
    simp only [Scanner.next, Scanner.tokenHere, hrest, Lexeme.token]
  have hkind : s.next.1.kind ≠ .eof := by
    rw [hnext]
    exact Lexeme.kind_ne_eof c rest
  have hlater : s.next.2.tokens =
      (⟨[], s.next.2.rest, s.next.2.position⟩ : Scanner).tokens := Scanner.tokens_congr _ _ rfl rfl
  rw [found, Scanner.tokens_of_ne_eof hkind, List.filter_cons_of_pos (by simpa using hkind), hlater,
    hnext, hposition, Position.advance_append, ← hposition, ← hrest]
  rfl

theorem found_gap {gap : List Char} (h : gap.all isSpace) (p : Position) (cs : List Char) :
    found p (gap ++ cs) = found (p.advance gap) cs := by
  have hdrop := dropWhile_gap h cs
  have htake : (gap ++ cs).takeWhile isSpace = gap ++ cs.takeWhile isSpace :=
    List.takeWhile_append_of_pos (List.all_eq_true.mp h)
  cases hcs : cs.dropWhile isSpace with
  | nil => rw [found_of_blank hcs, found_of_blank (hdrop.trans hcs)]
  | cons c rest =>
      rw [found_of_rest hcs, found_of_rest (hdrop.trans hcs), htake, List.append_assoc,
        Position.advance_append, Position.advance_append]

theorem found_down (p : Position) (k : Nat) (cs : List Char) :
    found (p.down k) cs = (found p cs).map fun t => t.down k := by
  induction cs using lexeme_induction generalizing p with
  | blank cs hcs =>
      rw [found_of_blank hcs, found_of_blank hcs, List.map_nil]
  | more cs c rest hcs ih =>
      rw [found_of_rest hcs, found_of_rest hcs, Position.advance_down, Position.advance_down, ih]
      rfl

/-- White space, the lexeme after it, and what follows. -/
theorem split_of_rest {cs : List Char} {c : Char} {rest : List Char}
    (h : cs.dropWhile isSpace = c :: rest) (width : Nat) :
    cs = cs.takeWhile isSpace ++ (c :: rest).take width ++ (c :: rest).drop width := by
  rw [List.append_assoc, List.take_append_drop, ← h, List.takeWhile_append_dropWhile]

/-- Without a newline, all tokens stand on the line where the text starts. -/
theorem line_of_found {cs : List Char} (h : '\n' ∉ cs) (p : Position) :
    ∀ t ∈ found p cs, t.position.line = p.line := by
  induction cs using lexeme_induction generalizing p with
  | blank cs hcs =>
      rw [found_of_blank hcs]
      exact List.forall_mem_nil _
  | more cs c rest hcs ih =>
      rw [split_of_rest hcs (Lexeme.read c rest).width, List.mem_append, not_or] at h
      have hgap : '\n' ∉ cs.takeWhile isSpace := fun hmem => h.1 (List.mem_append_left _ hmem)
      rw [found_of_rest hcs]
      refine List.forall_mem_cons.mpr ⟨?_, ?_⟩
      · exact Position.line_advance hgap p
      · intro t ht
        rw [ih h.2 _ t ht, Position.line_advance h.1]

/-- A lexeme that does not take up the newline after the text is not changed by it. -/
theorem Lexeme.read_append_newline {c : Char} {rest more : List Char}
    (h : '\n' ∉ (read c (rest ++ '\n' :: more)).text) :
    read c (rest ++ '\n' :: more) = read c rest := by
  refine read_append_of_halting ?_ ?_
  · intro d hd
    cases hd
    decide
  · rintro rfl hopen
    have hlong : ¬(rest.takeWhile (· != '"')).length < rest.length := by
      intro hshort
      simp only [quoted, if_pos hshort] at hopen
      cases hopen
    have hrest : rest.takeWhile (· != '"') = rest :=
      (List.takeWhile_prefix _).eq_of_length_le (Nat.le_of_not_lt hlong)
    have hbody : '\n' ∈ (rest ++ '\n' :: more).takeWhile (· != '"') := by
      rw [List.takeWhile_append, if_pos (by rw [hrest]), List.takeWhile_cons_of_pos (by decide)]
      exact List.mem_append_right _ List.mem_cons_self
    apply h
    show '\n' ∈ (quoted (rest ++ '\n' :: more)).text
    simp only [quoted]
    split
    · exact hbody
    · exact List.mem_cons_of_mem _ hbody

/-- A newline that no token holds parts the tokens before it from those after. -/
theorem found_append_newline {line more : List Char} (hline : '\n' ∉ line) (p : Position)
    (h : ∀ t ∈ found p (line ++ '\n' :: more), '\n' ∉ t.text.toList) :
    found p (line ++ '\n' :: more) = found p line ++ found ⟨p.line + 1, 1⟩ more := by
  induction line using lexeme_induction generalizing p with
  | blank line hblank =>
      have hgap : (line ++ ['\n']).all isSpace = true := by
        rw [List.all_append, all_isSpace_of_dropWhile hblank]
        rfl
      have hsplit : line ++ '\n' :: more = line ++ ['\n'] ++ more := by
        rw [List.append_assoc, List.singleton_append]
      rw [found_of_blank hblank, hsplit, found_gap hgap, Position.advance_newline hline,
        List.nil_append]
  | more line c rest hcs ih =>
      obtain ⟨htake, hdrop⟩ := gap_append_of_rest hcs ('\n' :: more)
      rw [found_of_rest hdrop] at h
      obtain ⟨hfirst, hlater⟩ := List.forall_mem_cons.mp h
      have hread : Lexeme.read c (rest ++ '\n' :: more) = Lexeme.read c rest := by
        apply Lexeme.read_append_newline
        rwa [Lexeme.token, String.toList_ofList] at hfirst
      have hwidth : (Lexeme.read c rest).width ≤ (c :: rest).length := Lexeme.width_read_le c rest
      rw [hread, htake, ← List.cons_append, List.take_append_of_le_length hwidth,
        List.drop_append_of_le_length hwidth] at hlater
      rw [split_of_rest hcs (Lexeme.read c rest).width, List.mem_append, not_or] at hline
      have hsame := Position.line_advance hline.1 p
      rw [found_of_rest hdrop, found_of_rest hcs, hread, htake, ← List.cons_append,
        List.take_append_of_le_length hwidth, List.drop_append_of_le_length hwidth,
        ih hline.2 _ hlater, hsame, List.cons_append]

/-- The tokens of a text are those of its lines, one after the other. -/
theorem found_pieces {cs : List Char} (n : Nat)
    (h : ∀ t ∈ found ⟨n, 1⟩ cs, '\n' ∉ t.text.toList) :
    found ⟨n, 1⟩ cs =
      ((Text.pieces '\n' cs).zipIdx n).flatMap fun line => found ⟨line.2, 1⟩ line.1 := by
  induction cs using Text.pieces_induction '\n' generalizing n with
  | last line hline =>
      rw [Text.pieces_of_not_mem hline, List.zipIdx_singleton, List.flatMap_singleton]
  | more line rest hline ih =>
      have hparts := found_append_newline hline ⟨n, 1⟩ h
      rw [hparts] at h
      rw [hparts, ih (n + 1) fun t ht => h t (List.mem_append_right _ ht), Text.pieces_append hline,
        List.zipIdx_cons, List.flatMap_cons]

/-- The words of a text are those of its lines, one after the other. -/
theorem wordsOf_pieces {cs : List Char} (h : ∀ t ∈ found .start cs, '\n' ∉ t.text.toList) :
    wordsOf cs = (Text.pieces '\n' cs).flatMap wordsOf := by
  have hfound := found_pieces 1 h
  calc wordsOf cs
      = (found ⟨1, 1⟩ cs).map Token.word := (word_found _ cs).symm
    _ = ((Text.pieces '\n' cs).zipIdx 1).flatMap fun line => wordsOf line.1 := by
        rw [hfound, List.map_flatMap]
        simp only [word_found]
    _ = (((Text.pieces '\n' cs).zipIdx 1).map Prod.fst).flatMap wordsOf := (List.flatMap_map ..).symm
    _ = (Text.pieces '\n' cs).flatMap wordsOf := by rw [List.zipIdx_map_fst]

/-- Among the tokens of several lines, those of a given line can be told by their position. -/
theorem filter_lines {lines : List (List Char)} (h : ∀ line ∈ lines, '\n' ∉ line) (n k : Nat) :
    (((lines.zipIdx n).flatMap fun line => found ⟨line.2, 1⟩ line.1).filter
        fun t => t.position.line = n + k) = found ⟨n + k, 1⟩ (lines.getD k []) := by
  induction lines generalizing n k with
  | nil => exact (found_of_blank rfl _).symm
  | cons first lines ih =>
      obtain ⟨hfirst, hlines⟩ := List.forall_mem_cons.mp h
      have hhere : ∀ t ∈ found ⟨n, 1⟩ first, t.position.line = n := line_of_found hfirst ⟨n, 1⟩
      rw [List.zipIdx_cons, List.flatMap_cons, List.filter_append]
      cases k with
      | zero =>
          have hlater : ∀ t ∈ (lines.zipIdx (n + 1)).flatMap fun line => found ⟨line.2, 1⟩ line.1,
              t.position.line ≠ n := by
            intro t ht
            obtain ⟨⟨line, i⟩, hline, ht⟩ := List.mem_flatMap.mp ht
            have hi := (List.mem_zipIdx hline).1
            have hmem := (List.mem_zipIdx hline).2.2
            have hline' : t.position.line = i :=
              line_of_found (hlines line (hmem ▸ List.getElem_mem _)) ⟨i, 1⟩ t ht
            omega
          rw [List.filter_eq_self.mpr (by simpa using hhere),
            List.filter_eq_nil_iff.mpr (by simpa using hlater), List.append_nil]
          rfl
      | succ k =>
          have hnone : ∀ t ∈ found ⟨n, 1⟩ first, t.position.line ≠ n + (k + 1) := by
            intro t ht
            rw [hhere t ht]
            omega
          have hshift : n + (k + 1) = n + 1 + k := by omega
          rw [List.filter_eq_nil_iff.mpr (by simpa using hnone), List.nil_append, hshift, ih hlines]
          rfl

/-- The tokens that stand on one line of a text are those of the line. -/
theorem filter_found {cs : List Char} (n k : Nat)
    (h : ∀ t ∈ found ⟨n, 1⟩ cs, '\n' ∉ t.text.toList) :
    ((found ⟨n, 1⟩ cs).filter fun t => t.position.line = n + k) =
      found ⟨n + k, 1⟩ ((Text.pieces '\n' cs).getD k []) := by
  rw [found_pieces n h]
  exact filter_lines (fun line hline => Text.not_mem_of_mem_pieces hline) n k

end Found

end Scriptlet
