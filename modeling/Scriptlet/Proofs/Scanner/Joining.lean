import Scriptlet.Proofs.Scanner.Braces

/-!
# Texts one after the other

A text whose last word is a semicolon can be followed by any other text: the words of the two come one
after the other.

**Method.**  A lexeme that ends before its text does is not changed by what comes after the text
(`Lexeme.read_append`).  That covers every lexeme but the last; a semicolon is a lexeme whatever follows.

**Result.**  `wordsOf_append_of_semicolon`.
-/

namespace Scriptlet

namespace Lexeme

/-- A lexeme that ends before its text does stays as it is when the text goes on. -/
theorem read_append {c : Char} {rest : List Char} (h : (read c rest).width < rest.length + 1)
    (more : List Char) : read c (rest ++ more) = read c rest := by
  have hne : rest ≠ [] := by
    rintro rfl
    have hwidth := one_le_width c []
    simp only [List.length_nil] at h
    omega
  have hrun : ∀ p : Char → Bool, (rest.takeWhile p).length < rest.length →
      (rest ++ more).takeWhile p = rest.takeWhile p := by
    intro p hshorter
    rw [List.takeWhile_append, if_neg (Nat.ne_of_lt hshorter)]
  unfold read at h ⊢
  cases hpaired : paired? c with
  | some kinds =>
      obtain ⟨d, ds, rfl⟩ := List.exists_cons_of_ne_nil hne
      rfl
  | none =>
      rw [hpaired] at h
      cases hsymbol : symbol? c with
      | some kind => rfl
      | none =>
          rw [hsymbol] at h
          simp only at h ⊢
          by_cases hquote : c = '"'
          · rw [if_pos hquote] at h
            rw [if_pos hquote, if_pos hquote]
            refine quoted_append ?_ more
            intro hillegal
            simp only [quoted] at h hillegal
            split at hillegal
            · cases hillegal
            · next hopen =>
                rw [if_neg hopen] at h
                simp only at h
                omega
          · rw [if_neg hquote] at h
            rw [if_neg hquote, if_neg hquote]
            by_cases hletter : isLetter c = true
            · rw [if_pos hletter] at h
              simp only [List.length_cons] at h
              rw [if_pos hletter, if_pos hletter, hrun isLetter (by omega)]
            · rw [if_neg hletter] at h
              rw [if_neg hletter, if_neg hletter]
              by_cases hdigit : isDigit c = true
              · rw [if_pos hdigit] at h
                simp only [List.length_cons] at h
                rw [if_pos hdigit, if_pos hdigit, hrun isDigit (by omega)]
              · rw [if_neg hdigit, if_neg hdigit]

/-- Only the semicolon is read as one. -/
theorem eq_of_kind_semicolon {c : Char} {rest : List Char} (h : (read c rest).kind = .semicolon) :
    c = ';' := by
  unfold read at h
  cases hpaired : paired? c with
  | some kinds =>
      rw [hpaired] at h
      unfold paired? at hpaired
      split at hpaired
      all_goals cases hpaired
      all_goals
        simp only at h
        split at h
        all_goals cases h
  | none =>
      rw [hpaired] at h
      cases hsymbol : symbol? c with
      | some kind =>
          rw [hsymbol] at h
          unfold symbol? at hsymbol
          split at hsymbol
          all_goals cases hsymbol
          all_goals cases h
          rfl
      | none =>
          rw [hsymbol] at h
          simp only at h
          split at h
          · unfold quoted at h
            simp only at h
            split at h
            all_goals cases h
          · split at h
            · unfold TokenKind.ofWord at h
              simp only at h
              split at h
              all_goals cases h
            · split at h
              all_goals cases h

end Lexeme

theorem dropWhile_of_wordsOf_nil {cs : List Char} (h : wordsOf cs = []) :
    cs.dropWhile isSpace = [] := by
  cases hcs : cs.dropWhile isSpace with
  | nil => rfl
  | cons c rest =>
      rw [wordsOf_of_rest hcs] at h
      cases h

/-- Whether the last token of a text, before the end token, is a semicolon. -/
def endsInSemicolon (cs : List Char) : Bool :=
  (wordsOf cs).getLast?.any fun w => w.kind = .semicolon

theorem wordsOf_append_of_semicolon {cs : List Char} (h : endsInSemicolon cs = true)
    (more : List Char) : wordsOf (cs ++ more) = wordsOf cs ++ wordsOf more := by
  induction cs using lexeme_induction with
  | blank cs hcs =>
      rw [endsInSemicolon, wordsOf_of_blank hcs] at h
      cases h
  | more cs c rest hcs ih =>
      have hdrop := (gap_append_of_rest hcs more).2
      rw [endsInSemicolon, wordsOf_of_rest hcs] at h
      cases hlater : wordsOf ((c :: rest).drop (Lexeme.read c rest).width) with
      | nil =>
          rw [hlater] at h
          have hkind : (Lexeme.read c rest).kind = .semicolon := of_decide_eq_true h
          obtain rfl := Lexeme.eq_of_kind_semicolon hkind
          have hread : ∀ after, Lexeme.read ';' after = ⟨.semicolon, [';'], 1⟩ := fun _ => rfl
          rw [hread, List.drop_one, List.tail_cons] at hlater
          have hblank := all_isSpace_of_dropWhile (dropWhile_of_wordsOf_nil hlater)
          rw [wordsOf_of_rest hdrop, wordsOf_of_rest hcs, hread, hread, List.drop_one, List.tail_cons,
            List.drop_one, List.tail_cons, wordsOf_gap hblank, hlater]
          rfl
      | cons w later =>
          rw [hlater, List.getLast?_cons_cons] at h
          have hends : endsInSemicolon ((c :: rest).drop (Lexeme.read c rest).width) = true := by
            rw [endsInSemicolon, hlater]
            exact h
          have hwidth : (Lexeme.read c rest).width < rest.length + 1 := by
            refine Nat.lt_of_not_le fun hlong => ?_
            rw [List.drop_eq_nil_of_le (by rw [List.length_cons]; omega), wordsOf_nil] at hlater
            cases hlater
          rw [wordsOf_of_rest hdrop, wordsOf_of_rest hcs, Lexeme.read_append hwidth, ← List.cons_append,
            List.drop_append_of_le_length (by rw [List.length_cons]; omega), ih hends, List.cons_append]

end Scriptlet
