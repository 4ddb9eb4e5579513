import Scriptlet.Proofs.Scanner.Spelling

/-!
# Closing braces at the end of a text

Braces after a text are read as words of their own, unless the text ends inside a string.

**Method.**  What starts with no letter, no digit and no equals sign is *halting*: no lexeme before it grows,
and a string that is closed does not reach it (`Lexeme.read_append_of_halting`).  Closing braces are
halting.  The only lexeme that would take them up is a string that is never closed, which is illegal.

**Result.**  `wordsOf_append_closing`.
-/

namespace Scriptlet

/-- So many closing braces. -/
def closing (k : Nat) : List Char :=
  List.replicate k '\x7d'

/-- Their words. -/
def braces (k : Nat) : List Word :=
  List.replicate k ⟨.rbrace, "\x7d"⟩

theorem braces_succ (k : Nat) : braces (k + 1) = ⟨.rbrace, "\x7d"⟩ :: braces k := rfl

theorem braces_add (j k : Nat) : braces (j + k) = braces j ++ braces k :=
  (List.replicate_append_replicate ..).symm

theorem tail_braces (k : Nat) : (braces k).tail = braces (k - 1) := by
  rw [braces, List.tail_replicate, braces]

namespace Lexeme

/-- A string that is closed ends before what comes after the text. -/
theorem quoted_append {rest : List Char} (h : (quoted rest).kind ≠ .illegal) (more : List Char) :
    quoted (rest ++ more) = quoted rest := by
  by_cases hclosed : (rest.takeWhile (· != '"')).length < rest.length
  · have hbody : (rest ++ more).takeWhile (· != '"') = rest.takeWhile (· != '"') := by
      rw [List.takeWhile_append, if_neg (Nat.ne_of_lt hclosed)]
    have hlonger : (rest.takeWhile (· != '"')).length < (rest ++ more).length := by
      rw [List.length_append]
      omega
    simp only [quoted, hbody, if_pos hclosed, if_pos hlonger]
  · simp only [quoted, if_neg hclosed] at h
    exact absurd rfl h

/-- What comes after a text extends no lexeme of it, unless that is a string that is still open. -/
def Halting (after : List Char) : Prop :=
  ∀ c ∈ after.head?, isLetter c = false ∧ isDigit c = false ∧ c ≠ '='

theorem halting_closing (k : Nat) : Halting (closing k) := by
  intro c hc
  cases k with
  | zero => cases hc
  | succ k =>
      cases hc
      decide

theorem read_append_of_halting {c : Char} {rest after : List Char} (hafter : Halting after)
    (hclosed : c = '"' → (quoted rest).kind ≠ .illegal) : read c (rest ++ after) = read c rest := by
  have hequals : ((rest ++ after).head? = some '=') = (rest.head? = some '=') := by
    cases rest with
    | nil =>
        have hne : after.head? ≠ some '=' := fun heq => (hafter '=' heq).2.2 rfl
        simpa using hne
    | cons d rest => rfl
  have hletters : (rest ++ after).takeWhile isLetter = rest.takeWhile isLetter :=
    takeWhile_append_of_stop rest fun d hd => (hafter d hd).1
  have hdigits : (rest ++ after).takeWhile isDigit = rest.takeWhile isDigit :=
    takeWhile_append_of_stop rest fun d hd => (hafter d hd).2.1
  unfold read
  cases paired? c with
  | some kinds => simp only [hequals]
  | none =>
      cases symbol? c with
      | some kind => rfl
      | none =>
          by_cases hquote : c = '"'
          · simp only [if_pos hquote, quoted_append (hclosed hquote)]
          · simp only [if_neg hquote, hletters, hdigits]

theorem read_append_closing {c : Char} {rest : List Char} (h : (read c rest).kind ≠ .illegal)
    (k : Nat) : read c (rest ++ closing k) = read c rest := by
  apply read_append_of_halting (halting_closing k)
  rintro rfl
  exact h

/-- A lexeme ends within the text. -/
theorem width_read_le (c : Char) (rest : List Char) : (read c rest).width ≤ rest.length + 1 := by
  have hrun : ∀ p : Char → Bool, (rest.takeWhile p).length ≤ rest.length :=
    fun p => (List.takeWhile_sublist p).length_le
  unfold read
  split
  · split
    · next hequals =>
        cases rest with
        | nil => cases hequals
        | cons d rest => simp
    · simp
  · split
    · simp
    · split
      · have hbody := hrun (· != '"')
        simp only [quoted]
        split
        · next hclosed =>
            show _ + 2 ≤ _
            omega
        · simpa using hbody
      · split
        · simpa using hrun isLetter
        · split
          · simpa using hrun isDigit
          · simp

end Lexeme

/-- Braces alone. -/
theorem wordsOf_closing (k : Nat) : wordsOf (closing k) = braces k := by
  induction k with
  | zero => exact wordsOf_of_blank rfl
  | succ k ih =>
      have hdrop : (closing (k + 1)).dropWhile isSpace = '\x7d' :: closing k := rfl
      rw [wordsOf_of_rest hdrop]
      have hread : Lexeme.read '\x7d' (closing k) = ⟨.rbrace, ['\x7d'], 1⟩ := rfl
      rw [hread, braces_succ, ← ih]
      rfl

theorem all_isSpace_of_dropWhile {cs : List Char} (h : cs.dropWhile isSpace = []) :
    cs.all isSpace = true := by
  have hsplit := List.takeWhile_append_dropWhile (p := isSpace) (l := cs)
  rw [h, List.append_nil] at hsplit
  rw [← hsplit]
  exact List.all_takeWhile

/-- Braces after a text are read as words of their own, if no word of the text is illegal. -/
theorem wordsOf_append_closing {cs : List Char} (h : ∀ w ∈ wordsOf cs, w.kind ≠ .illegal) (k : Nat) :
    wordsOf (cs ++ closing k) = wordsOf cs ++ braces k := by
  induction cs using lexeme_induction with
  | blank cs hcs =>
      rw [wordsOf_gap (all_isSpace_of_dropWhile hcs), wordsOf_closing, wordsOf_of_blank hcs, List.nil_append]
  | more cs c rest hcs ih =>
      have hdrop := (gap_append_of_rest hcs (closing k)).2
      rw [wordsOf_of_rest hcs] at h ⊢
      obtain ⟨hfirst, hlater⟩ := List.forall_mem_cons.mp h
      have hwidth := Lexeme.width_read_le c rest
      rw [wordsOf_of_rest hdrop, Lexeme.read_append_closing hfirst, ← List.cons_append,
        List.drop_append_of_le_length (by simpa using hwidth), ih hlater, List.cons_append]

end Scriptlet
