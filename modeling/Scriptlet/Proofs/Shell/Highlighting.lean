import Mathlib.Algebra.Ring.Int.Defs
import Scriptlet.Highlight
import Scriptlet.Proofs.Scanner.Lines
import Scriptlet.Proofs.Shell.Balance

/-!
# Highlighting

What is typed is shown with styles, line by line, while it is run as one text.

**One line.**  The place of a fragment is computed from the column of its token, and its length from the
text of the token; the scanner does not tell either.  In a text without newlines the column is the number
of characters before the token (`Position.column_after`), and the length is that of its spelling
(`Token.width_eq`).  So the fragments are the pieces that the scanner cuts the text into.

**Several lines.**  Every line is scanned on its own.  If no token holds a newline, that finds the same tokens
as scanning the whole text, in the same columns.

**Results.**
* `Fragment.ofLine_pieces`: the fragments of a line are its tokens and the white space between them.
* `Fragment.ofTextLine_tokens`: the fragments of a line in a text show the tokens of the whole text, and the
  depths of its lines add up.
-/

namespace Scriptlet

section OneLine

/-- A token takes up the characters that it is spelled with. -/
theorem Token.width_eq (t : Token) : t.width = t.spelling.length := by
  unfold width spelling
  split
  · rw [List.length_cons, List.length_append, List.length_singleton, String.length_toList]
  · rw [String.length_toList]

/-- Without newlines, the column counts the characters before it. -/
theorem Position.column_after {cs : List Char} (h : '\n' ∉ cs) : (after cs).column = cs.length + 1 := by
  have hstart : after cs = start.advance cs := (advance_after [] cs).symm
  rw [hstart, advance_of_not_mem h]
  exact Nat.add_comm _ _

namespace Fragment

/-- White space as a fragment without style, if there is any. -/
def blank (cs : List Char) : List Fragment :=
  if cs = [] then [] else [⟨"", String.ofList cs⟩]

theorem slice_append (before body after : List Char) :
    slice (before ++ (body ++ after)) before.length (before.length + body.length) =
      String.ofList body := by
  rw [slice, List.drop_left, Nat.add_sub_cancel_left, List.take_left]

theorem gap_append (before body after : List Char) :
    gap (before ++ (body ++ after)) before.length (before.length + body.length) = blank body := by
  rw [gap, slice_append, blank]
  by_cases hbody : body = []
  · rw [hbody, if_pos rfl, if_neg (by simp)]
  · have hpos : 0 < body.length := List.length_pos_iff.mpr hbody
    rw [if_neg hbody, if_pos (by omega)]

section Tokens

variable (builtins : List String) (cs : List Char) (place : Nat) {t : Token} (ts : List Token)

theorem ofTokens_of_eof (h : t.kind = .eof) :
    ofTokens builtins cs place (t :: ts) = gap cs place cs.length := by
  rw [ofTokens, if_pos h]

theorem ofTokens_of_ne_eof (h : t.kind ≠ .eof) :
    ofTokens builtins cs place (t :: ts) =
      gap cs place (t.position.column - 1) ++
        ⟨(Group.ofToken builtins t).style,
          slice cs (t.position.column - 1) (t.position.column - 1 + t.width)⟩ ::
        ofTokens builtins cs (t.position.column - 1 + t.width) ts := by
  rw [ofTokens, if_neg h]

end Tokens

end Fragment

/-- A token in the style of its group, after the white space in front of it. -/
def Piece.fragments (builtins : List String) (piece : Piece) : List Fragment :=
  Fragment.blank piece.gap ++
    [⟨(Group.ofToken builtins piece.token).style, String.ofList piece.token.spelling⟩]

namespace Scanner

variable {s : Scanner}

/-- The scanner and the columns tell the same place: what the next token takes up is shown, and so is the white
space in front of it. -/
theorem fragments_next (builtins : List String) (hs : s.Placed) (hnewline : '\n' ∉ s.text)
    (h : s.next.1.kind ≠ .eof) :
    Fragment.ofTokens builtins s.text s.offset s.tokens =
      (⟨s.gap, s.next.1⟩ : Piece).fragments builtins ++
        Fragment.ofTokens builtins s.next.2.text s.next.2.offset s.next.2.tokens := by
  obtain ⟨-, hposition, hread⟩ := next_of_placed hs
  have htext : s.text = s.before.reverse ++ (s.gap ++ (s.next.1.spelling ++ s.next.2.rest)) := by
    rw [← s.text_next, text, hread]
    simp only [List.append_assoc]
  have hclear : '\n' ∉ s.before.reverse ++ s.gap := by
    rw [htext, ← List.append_assoc] at hnewline
    exact fun hmem => hnewline (List.mem_append_left _ hmem)
  have hstart : s.next.1.position.column - 1 = s.offset + s.gap.length := by
    rw [hposition, Position.column_after hclear, List.length_append, List.length_reverse]
    rfl
  have hoffset : s.next.2.offset = s.offset + s.gap.length + s.next.1.spelling.length := by
    have hlength := congrArg List.length hread
    simp only [List.length_append, List.length_reverse] at hlength
    rw [offset, hlength, Nat.add_assoc]
    rfl
  have hgap := Fragment.gap_append s.before.reverse s.gap (s.next.1.spelling ++ s.next.2.rest)
  rw [← htext, List.length_reverse] at hgap
  have hslice := Fragment.slice_append (s.before.reverse ++ s.gap) s.next.1.spelling s.next.2.rest
  rw [List.append_assoc, ← htext, List.length_append, List.length_reverse] at hslice
  rw [tokens_of_ne_eof h, Fragment.ofTokens_of_ne_eof _ _ _ _ h, hstart, Token.width_eq, text_next,
    hoffset, offset, hgap, hslice, Piece.fragments, List.append_assoc, List.singleton_append]

/-- At the end of the tokens, the white space that is left is shown. -/
theorem fragments_of_eof (builtins : List String) (h : s.next.1.kind = .eof) :
    Fragment.ofTokens builtins s.text s.offset s.tokens = Fragment.blank s.rest := by
  have hgap := Fragment.gap_append s.before.reverse s.rest []
  rw [List.append_nil, ← List.length_append, List.length_reverse] at hgap
  rw [tokens_of_eof h, Fragment.ofTokens_of_eof _ _ _ _ h]
  exact hgap

theorem exists_covered_fragments (builtins : List String) (s : Scanner) (hs : s.Placed)
    (hnewline : '\n' ∉ s.text) :
    ∃ pieces last, s.Covered pieces last ∧
      Fragment.ofTokens builtins s.text s.offset s.tokens =
        pieces.flatMap (Piece.fragments builtins) ++ Fragment.blank last := by
  by_cases h : s.next.1.kind = .eof
  · exact ⟨[], s.rest, covered_of_eof hs h, fragments_of_eof builtins h⟩
  · have hlt := s.next_rest_lt h
    obtain ⟨pieces, last, hcovered, hfragments⟩ :=
      exists_covered_fragments builtins s.next.2 (next_of_placed hs).1 (by rwa [s.text_next])
    refine ⟨_, last, covered_of_next hs h hcovered, ?_⟩
    rw [fragments_next builtins hs hnewline h, hfragments, List.flatMap_cons, List.append_assoc]
termination_by s.rest.length

end Scanner

namespace Fragment

theorem texts_blank (cs : List Char) :
    (blank cs).flatMap (fun fragment => fragment.text.toList) = cs := by
  unfold blank
  split
  · next hnil => rw [hnil, List.flatMap_nil]
  · rw [List.flatMap_singleton, String.toList_ofList]

theorem texts_fragments (builtins : List String) (piece : Piece) :
    (piece.fragments builtins).flatMap (fun fragment => fragment.text.toList) = piece.text := by
  rw [Piece.fragments, List.flatMap_append, texts_blank, List.flatMap_singleton, String.toList_ofList]
  rfl

/-- The fragments of a text without newlines are the text.  If it is not empty they are, in order, its tokens,
each as it is spelled in the text and in the style of its group, and between them the white space where
there is any, without a style. -/
theorem ofLine_pieces (builtins : List String) {text : String} (h : '\n' ∉ text.toList) :
    (ofLine builtins text).flatMap (fun fragment => fragment.text.toList) = text.toList ∧
      (text ≠ "" → ∃ pieces last,
        (Scanner.ofString text).Covered pieces last ∧
        ofLine builtins text = pieces.flatMap (Piece.fragments builtins) ++ blank last) := by
  by_cases hempty : text = ""
  · rw [ofLine, if_pos hempty, hempty]
    exact ⟨rfl, fun hne => absurd rfl hne⟩
  · obtain ⟨pieces, last, hcovered, hfragments⟩ :=
      (Scanner.ofString text).exists_covered_fragments builtins (Scanner.placed_ofString text) h
    have hline : ofLine builtins text = pieces.flatMap (Piece.fragments builtins) ++ blank last := by
      rw [ofLine, if_neg hempty]
      exact hfragments
    refine ⟨?_, fun _ => ⟨pieces, last, hcovered, hline⟩⟩
    have htext : text.toList = pieces.flatMap Piece.text ++ last := hcovered.rest_eq
    rw [hline, List.flatMap_append, List.flatMap_assoc, texts_blank, htext]
    simp only [texts_fragments]

/-- The text has a tab and a return in it, and a string that is never closed. -/
theorem ofLine_pieces_unclosed :
    let text := "\tlen(\"a b\")\r== \"c "
    '\n' ∉ text.toList ∧
      (ofLine ["len"] text).flatMap (fun fragment => fragment.text.toList) = text.toList ∧
      (∃ pieces last, (Scanner.ofString text).Covered pieces last ∧
        ofLine ["len"] text = pieces.flatMap (Piece.fragments ["len"]) ++ blank last) ∧
      ofLine ["len"] text =
        [⟨"", "\t"⟩, ⟨"bold ansiyellow", "len"⟩, ⟨"", "("⟩, ⟨"ansigreen", "\"a b\""⟩, ⟨"", ")"⟩,
          ⟨"", "\r"⟩, ⟨"", "=="⟩, ⟨"", " "⟩, ⟨"bold ansired", "\"c "⟩] := by
  intro text
  have h : '\n' ∉ text.toList := by decide
  obtain ⟨htext, hpieces⟩ := ofLine_pieces ["len"] h
  exact ⟨h, htext, hpieces (by decide), by decide +kernel⟩

end Fragment

end OneLine

section SeveralLines

/-- What a token is and the column it stands in, whatever the line. -/
def Token.withinLine (t : Token) : TokenKind × String × Nat :=
  (t.kind, t.text, t.position.column)

/-- The tokens that stand on a line of a text, lines counted from one, without the end token. -/
def tokensOnLine (text : String) (line : Nat) : List Token :=
  (tokenize text).filter fun t => t.kind ≠ .eof ∧ t.position.line = line

theorem tokensOnLine_eq (text : String) (line : Nat) :
    tokensOnLine text line =
      (found .start text.toList).filter fun t => t.position.line = line := by
  rw [tokensOnLine, found_start, List.filter_filter]
  congr 1
  funext t
  rw [← Bool.decide_and]
  exact decide_eq_decide.mpr And.comm

/-- A text, each token of which ends on the line it starts on. -/
def SingleLined (text : String) : Prop :=
  ∀ t ∈ tokenize text, '\n' ∉ t.text.toList

instance (text : String) : Decidable (SingleLined text) :=
  inferInstanceAs (Decidable (∀ t ∈ tokenize text, '\n' ∉ t.text.toList))

variable {text : String}

theorem SingleLined.found (h : SingleLined text) :
    ∀ t ∈ found .start text.toList, '\n' ∉ t.text.toList :=
  fun t ht => h t (List.mem_filter.mp ht).1

theorem getD_linesOf (text : String) (i : Nat) :
    (Fragment.linesOf text).getD i "" = String.ofList ((Text.pieces '\n' text.toList).getD i []) := by
  rw [Fragment.linesOf, List.getD_eq_getElem?_getD, List.getD_eq_getElem?_getD, List.getElem?_map]
  exact Option.getD_map ..

/-- The tokens on a line are those of the line alone, further down. -/
theorem SingleLined.tokensOnLine_eq_map (h : SingleLined text) (i : Nat) :
    tokensOnLine text (i + 1) =
      ((tokenize ((Fragment.linesOf text).getD i "")).filter fun t => t.kind ≠ .eof).map
        fun t => t.down i := by
  have hfilter := filter_found 1 i h.found
  have hdown : Position.start.down i = ⟨1 + i, 1⟩ := rfl
  rw [tokensOnLine_eq, Nat.add_comm i 1, ← found_start, getD_linesOf, String.toList_ofList, ← found_down,
    hdown]
  exact hfilter

theorem SingleLined.openDepth_eq (h : SingleLined text) :
    openDepth text = ((Fragment.linesOf text).map openDepth).sum := by
  have hlines : ∀ lines : List (List Char),
      balance (lines.flatMap wordsOf) = ((lines.map String.ofList).map openDepth).sum := by
    intro lines
    induction lines with
    | nil => rfl
    | cons line lines ih =>
        rw [List.flatMap_cons, balance_append, ih, List.map_cons, List.map_cons, List.sum_cons,
          openDepth_eq_balance, String.toList_ofList]
  rw [openDepth_eq_balance, wordsOf_pieces h.found, hlines, Fragment.linesOf]

/-- The end token shows nothing. -/
theorem Scanner.ofTokens_filter (builtins : List String) (cs : List Char) (s : Scanner) (place : Nat) :
    Fragment.ofTokens builtins cs place (s.tokens.filter fun t => t.kind ≠ .eof) =
      Fragment.ofTokens builtins cs place s.tokens := by
  by_cases h : s.next.1.kind = .eof
  · rw [tokens_of_eof h, List.filter_cons_of_neg (by simp [h]), List.filter_nil,
      Fragment.ofTokens_of_eof _ _ _ _ h]
    rfl
  · have hlt := s.next_rest_lt h
    rw [tokens_of_ne_eof h, List.filter_cons_of_pos (by simpa using h),
      Fragment.ofTokens_of_ne_eof _ _ _ _ h, Fragment.ofTokens_of_ne_eof _ _ _ _ h,
      ofTokens_filter builtins cs s.next.2]
termination_by s.rest.length

namespace Fragment

/-- The line that a token stands on does not matter to how it is shown. -/
theorem ofTokens_down (builtins : List String) (cs : List Char) (place k : Nat) (ts : List Token) :
    ofTokens builtins cs place (ts.map fun t => t.down k) = ofTokens builtins cs place ts := by
  induction ts generalizing place with
  | nil => rfl
  | cons t ts ih =>
      simp only [List.map_cons, ofTokens, ih]
      rfl

/-- If no token of a text holds a newline, the tokens on a line of it are, in kind, text and column, those of
the line alone.  So the fragments of the line show the tokens of the text that stand on it, and the depths of
all lines add up to that of the text. -/
theorem ofTextLine_tokens (builtins : List String) (h : SingleLined text) :
    (∀ i, (tokensOnLine text (i + 1)).map Token.withinLine =
      ((tokenize ((linesOf text).getD i "")).filter fun t => t.kind ≠ .eof).map Token.withinLine) ∧
    (∀ i, ofTextLine builtins text i =
      if (linesOf text).getD i "" = "" then [⟨"", ""⟩]
      else ofTokens builtins ((linesOf text).getD i "").toList 0 (tokensOnLine text (i + 1))) ∧
    openDepth text = ((linesOf text).map openDepth).sum := by
  refine ⟨fun i => ?_, fun i => ?_, h.openDepth_eq⟩
  · rw [h.tokensOnLine_eq_map, List.map_map]
    rfl
  · rw [h.tokensOnLine_eq_map, ofTokens_down, ofTextLine, List.getD_eq_getElem?_getD]
    cases (linesOf text)[i]? with
    | none => rfl
    | some line =>
        simp only [Option.getD_some]
        rw [ofLine]
        congr 1
        exact (Scanner.ofTokens_filter builtins line.toList (Scanner.ofString line) 0).symm

/-- A bracket in a string, one that closes nothing, an empty line, and a last line with a string that is never
closed. -/
theorem ofTextLine_tokens_bracketed :
    let text := "if (a) \x7b\r\n\t\"(\" == a]\n\n \"b"
    SingleLined text ∧
      (tokensOnLine text 2).map Token.withinLine =
        [(.string, "(", 2), (.eq, "==", 6), (.ident, "a", 9), (.rbracket, "]", 10)] ∧
      ((tokenize ((linesOf text).getD 1 "")).filter fun t => t.kind ≠ .eof).map Token.withinLine =
        (tokensOnLine text 2).map Token.withinLine ∧
      ofTextLine [] text 3 = [⟨"", " "⟩, ⟨"bold ansired", "\"b"⟩] ∧
      ofTextLine [] text 3 = ofTokens [] " \"b".toList 0 (tokensOnLine text 4) ∧
      (linesOf text).map openDepth = [1, -1, 0, 0] ∧
      openDepth text = [1, -1, 0, 0].sum := by
  intro text
  have h : SingleLined text := by decide +kernel
  have hdepths : (linesOf text).map openDepth = [1, -1, 0, 0] := by decide +kernel
  obtain ⟨htokens, hfragments, hdepth⟩ := ofTextLine_tokens [] h
  have hlast : (linesOf text).getD 3 "" = " \"b" := by decide +kernel
  have hshown := hfragments 3
  rw [hlast, if_neg (by decide)] at hshown
  rw [hdepths] at hdepth
  exact ⟨h, by decide +kernel, (htokens 1).symm, by decide +kernel, hshown, hdepths, hdepth⟩

end Fragment

end SeveralLines

end Scriptlet
