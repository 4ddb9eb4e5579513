import Scriptlet.Shell.Loop
import Scriptlet.Proofs.Parser.Brackets
import Scriptlet.Proofs.Scanner.Braces

/-!
# The balance of brackets

The depth of a text, which decides whether the shell reads on, is the balance of its brackets: those
that are opened less those that are closed.

**Words.**  The balance of words goes over them one by one.  If their brackets match, it is the number of
brackets left open (`balance_of_unmatched`).

**Characters.**  Brackets are single characters, and count unless they stand in a string.  So the depth
can be read off the characters (`openDepth_eq_outside`), and leaving out what cannot be seen does not
change it (`openDepth_visible`): the text that is tested is not the one that is run.

**Result.**  `openDepth_eq_bracketCount`: enter and evaluation judge the same brackets.
-/

namespace Scriptlet

section Words

/-- The brackets that words open, less those that they close. -/
def balance : List Word → Int
  | [] => 0
  | w :: ws => w.kind.opening + balance ws

@[simp] theorem balance_append (ws rest : List Word) :
    balance (ws ++ rest) = balance ws + balance rest := by
  induction ws with
  | nil => simp [balance]
  | cons w ws ih =>
      simp only [List.cons_append, balance, ih]
      omega

@[simp] theorem balance_braces (k : Nat) : balance (braces k) = -k := by
  induction k with
  | zero => rfl
  | succ k ih =>
      rw [braces_succ, balance, ih]
      simp only [TokenKind.opening]
      omega

theorem openDepth_eq_balance (text : String) : openDepth text = balance (wordsOf text.toList) := by
  have htokens : ∀ ts : List Token,
      ts.foldr (fun t depth => t.kind.opening + depth) 0 =
        balance ((ts.filter fun t => t.kind ≠ .eof).map Token.word) := by
    intro ts
    induction ts with
    | nil => rfl
    | cons t ts ih =>
        rw [List.foldr_cons, ih]
        by_cases heof : t.kind = .eof
        · simp [heof, TokenKind.opening]
        · simp [heof, balance]
  exact htokens (tokenize text)

/-- A word adds one bracket to those that are open, takes one off, or leaves them. -/
theorem length_of_follow? {kind : TokenKind} {pending left : List TokenKind}
    (h : kind.follow? pending = some left) :
    (left.length : Int) = pending.length + kind.opening := by
  unfold TokenKind.follow? at h
  split at h
  all_goals cases h
  all_goals simp only [List.length_cons, TokenKind.opening]
  all_goals omega

theorem balance_of_unmatched {ws : List Word} {pending left : List TokenKind}
    (h : unmatched pending ws = some left) : (left.length : Int) = pending.length + balance ws := by
  induction ws generalizing pending with
  | nil =>
      cases h
      simp [balance]
  | cons w ws ih =>
      rw [unmatched_cons, Option.bind_eq_some_iff] at h
      obtain ⟨next, hnext, hleft⟩ := h
      have hfirst := length_of_follow? hnext
      have hrest := ih hleft
      rw [balance]
      omega

/-- Closing braces take as many opening ones off. -/
theorem eq_of_unmatched_braces {k : Nat} {pending left : List TokenKind}
    (h : unmatched pending (braces k) = some left) :
    pending = List.replicate k .lbrace ++ left := by
  induction k generalizing pending with
  | zero => exact Option.some.inj h
  | succ k ih =>
      rw [braces_succ, unmatched_cons, Option.bind_eq_some_iff] at h
      obtain ⟨next, hnext, hleft⟩ := h
      cases pending with
      | nil => cases hnext
      | cons kind pending =>
          cases kind with
          | lbrace =>
              cases hnext
              rw [ih hleft, List.replicate_succ, List.cons_append]
          | _ => cases hnext

end Words

section Characters

/-- What a character adds to the number of open brackets. -/
def charOpening (c : Char) : Int :=
  match symbol? c with
  | some kind => kind.opening
  | none => 0

mutual

/-- The balance of brackets in characters, from outside a string. -/
def outside : List Char → Int
  | [] => 0
  | c :: cs => if c = '"' then inside cs else charOpening c + outside cs

/-- The same from inside a string. -/
def inside : List Char → Int
  | [] => 0
  | c :: cs => if c = '"' then outside cs else inside cs

end

/-- The character is no quote and no bracket. -/
def Plain (c : Char) : Prop :=
  c ≠ '"' ∧ charOpening c = 0

theorem outside_append_of_plain {cs : List Char} (h : ∀ c ∈ cs, Plain c) (rest : List Char) :
    outside (cs ++ rest) = outside rest := by
  induction cs with
  | nil => rfl
  | cons c cs ih =>
      obtain ⟨hc, hcs⟩ := List.forall_mem_cons.mp h
      rw [List.cons_append, outside, if_neg hc.1, hc.2, ih hcs]
      omega

/-- A run of plain characters can be left out. -/
theorem outside_dropWhile {p : Char → Bool} (hp : ∀ c, p c = true → Plain c) (cs : List Char) :
    outside (cs.dropWhile p) = outside cs := by
  have hsplit := List.takeWhile_append_dropWhile (p := p) (l := cs)
  have hrun : ∀ c ∈ cs.takeWhile p, Plain c :=
    fun c hc => hp c (List.all_eq_true.mp List.all_takeWhile c hc)
  rw [← outside_append_of_plain hrun, hsplit]

theorem plain_of_not_mem_marks {c : Char} (h : c ∉ marks) : Plain c := by
  obtain ⟨-, -, hsymbol, hquote⟩ := read_of_not_mem_marks h
  refine ⟨hquote, ?_⟩
  rw [charOpening, hsymbol]

theorem plain_of_isSpace {c : Char} (h : isSpace c = true) : Plain c := by
  simp only [isSpace, Bool.or_eq_true, beq_iff_eq] at h
  rcases h with ((rfl | rfl) | rfl) | rfl
  all_goals exact ⟨by decide, rfl⟩

theorem plain_of_isInvisible {c : Char} (h : isInvisible c = true) : Plain c := by
  simp only [isInvisible, Bool.or_eq_true, beq_iff_eq] at h
  rcases h with ((((rfl | rfl) | rfl) | rfl) | rfl) | rfl
  all_goals exact ⟨by decide, rfl⟩

/-- A string ends with its quote, or with the text. -/
theorem inside_eq (cs : List Char) :
    inside cs = outside (cs.drop ((cs.takeWhile (· != '"')).length + 1)) := by
  induction cs with
  | nil => rfl
  | cons c cs ih =>
      rw [inside]
      by_cases hc : c = '"'
      · rw [if_pos hc, List.takeWhile_cons_of_neg (by simp [hc])]
        rfl
      · rw [if_neg hc, List.takeWhile_cons_of_pos (by simpa using hc), ih]
        rfl

section Lexemes

theorem opening_ofWord (text : String) : (TokenKind.ofWord text).opening = 0 := by
  unfold TokenKind.ofWord
  split
  all_goals rfl

theorem plain_of_paired? {c : Char} {kinds : TokenKind × TokenKind} (h : paired? c = some kinds) :
    Plain c ∧ kinds.1.opening = 0 ∧ kinds.2.opening = 0 := by
  unfold paired? at h
  split at h
  all_goals cases h
  all_goals exact ⟨⟨by decide, rfl⟩, rfl, rfl⟩

theorem outside_quoted (rest : List Char) :
    inside rest =
      (Lexeme.quoted rest).kind.opening + outside (('"' :: rest).drop (Lexeme.quoted rest).width) := by
  rw [inside_eq]
  simp only [Lexeme.quoted]
  split
  · exact (Int.zero_add _).symm
  · next hopen =>
      have hlast : rest.drop (rest.takeWhile (· != '"')).length = [] :=
        List.drop_eq_nil_of_le (by omega)
      have hend : rest.drop ((rest.takeWhile (· != '"')).length + 1) = [] :=
        List.drop_eq_nil_of_le (by omega)
      rw [hend, List.drop_succ_cons, hlast]
      rfl

/-- A lexeme adds what its kind opens; the text goes on outside of strings. -/
theorem outside_read (c : Char) (rest : List Char) :
    outside (c :: rest) =
      (Lexeme.read c rest).kind.opening + outside ((c :: rest).drop (Lexeme.read c rest).width) := by
  rw [outside]
  unfold Lexeme.read
  cases hpaired : paired? c with
  | some kinds =>
      obtain ⟨⟨hquote, hopening⟩, halone, hdoubled⟩ := plain_of_paired? hpaired
      simp only [if_neg hquote, hopening]
      split
      · next hequals =>
          cases rest with
          | nil => cases hequals
          | cons d rest =>
              cases hequals
              rw [hdoubled, outside, if_neg (by decide)]
              simp [charOpening, symbol?]
      · rw [halone]
        rfl
  | none =>
      cases hsymbol : symbol? c with
      | some kind =>
          have hquote : c ≠ '"' := by
            rintro rfl
            cases hsymbol
          simp only [if_neg hquote, charOpening, hsymbol]
          rfl
      | none =>
          have hopening : charOpening c = 0 := by rw [charOpening, hsymbol]
          simp only [hopening]
          by_cases hquote : c = '"'
          · subst hquote
            rw [if_pos rfl, if_pos rfl]
            exact outside_quoted rest
          · rw [if_neg hquote, if_neg hquote]
            split
            · have hrun := outside_dropWhile
                (fun c hc => plain_of_not_mem_marks (letter_not_mem_marks hc)) rest
              rw [← drop_length_takeWhile] at hrun
              simp only [opening_ofWord, List.length_cons, List.drop_succ_cons, hrun]
            · split
              · have hrun := outside_dropWhile
                  (fun c hc => plain_of_not_mem_marks (digit_not_mem_marks hc).1) rest
                rw [← drop_length_takeWhile] at hrun
                simp only [TokenKind.opening, List.length_cons, List.drop_succ_cons, hrun]
              · rfl

end Lexemes

theorem balance_wordsOf (cs : List Char) : balance (wordsOf cs) = outside cs := by
  induction cs using lexeme_induction with
  | blank cs hcs =>
      rw [wordsOf_of_blank hcs, ← outside_dropWhile (fun _ => plain_of_isSpace) cs, hcs]
      rfl
  | more cs c rest hcs ih =>
      rw [wordsOf_of_rest hcs, balance, ih, ← outside_dropWhile (fun _ => plain_of_isSpace) cs, hcs,
        outside_read c rest]

/-- The depth of a text is the balance of the brackets in it that stand outside of strings. -/
theorem openDepth_eq_outside (text : String) : openDepth text = outside text.toList := by
  rw [openDepth_eq_balance, balance_wordsOf]

/-- What cannot be seen may be left out. -/
theorem filter_visible (cs : List Char) :
    outside (cs.filter (!isInvisible ·)) = outside cs ∧
      inside (cs.filter (!isInvisible ·)) = inside cs := by
  induction cs with
  | nil => exact ⟨rfl, rfl⟩
  | cons c cs ih =>
      cases hc : isInvisible c with
      | false =>
          rw [List.filter_cons_of_pos (by simp [hc]), outside, outside, inside, inside, ih.1, ih.2]
          exact ⟨rfl, rfl⟩
      | true =>
          obtain ⟨hquote, hopening⟩ := plain_of_isInvisible hc
          rw [List.filter_cons_of_neg (by simp [hc]), outside, inside, if_neg hquote, if_neg hquote,
            hopening, ih.1, ih.2, Int.zero_add]
          exact ⟨rfl, rfl⟩

theorem openDepth_visible (text : String) : openDepth (visible text) = openDepth text := by
  rw [openDepth_eq_outside, openDepth_eq_outside, visible, String.toList_ofList]
  exact (filter_visible text.toList).1

section Quotes

/-- The characters that stand outside of strings, found by a scan with two states that every quote
toggles. -/
def unquoted (inString : Bool) : List Char → List Char
  | [] => []
  | c :: cs =>
      if c = '"' then unquoted (!inString) cs
      else if inString then unquoted inString cs
      else c :: unquoted inString cs

/-- The opening brackets among characters, less the closing ones. -/
def bracketCount (cs : List Char) : Int :=
  cs.countP (· ∈ ['(', '[', '\x7b']) - cs.countP (· ∈ [')', ']', '\x7d'])

/-- Of all characters, the brackets alone open or close something. -/
theorem charOpening_eq (c : Char) :
    charOpening c =
      (if c ∈ ['(', '[', '\x7b'] then 1 else 0) - (if c ∈ [')', ']', '\x7d'] then 1 else 0) := by
  rw [charOpening]
  cases hsymbol : symbol? c with
  | some kind =>
      unfold symbol? at hsymbol
      split at hsymbol
      all_goals cases hsymbol
      all_goals rfl
  | none =>
      have hbrackets : ∀ d ∈ ['(', '[', '\x7b'] ++ [')', ']', '\x7d'], symbol? d ≠ none := by
        simp [symbol?]
      have hopening : c ∉ ['(', '[', '\x7b'] :=
        fun hmem => hbrackets c (List.mem_append_left _ hmem) hsymbol
      have hclosing : c ∉ [')', ']', '\x7d'] :=
        fun hmem => hbrackets c (List.mem_append_right _ hmem) hsymbol
      rw [if_neg hopening, if_neg hclosing]
      rfl

theorem bracketCount_cons (c : Char) (cs : List Char) :
    bracketCount (c :: cs) = charOpening c + bracketCount cs := by
  rw [charOpening_eq, bracketCount, bracketCount, List.countP_cons, List.countP_cons]
  simp only [decide_eq_true_eq]
  split
  all_goals split
  all_goals omega

/-- The two scans agree in either state. -/
theorem bracketCount_unquoted (cs : List Char) :
    bracketCount (unquoted false cs) = outside cs ∧ bracketCount (unquoted true cs) = inside cs := by
  induction cs with
  | nil => exact ⟨rfl, rfl⟩
  | cons c cs ih =>
      rw [unquoted, unquoted, outside, inside]
      by_cases hquote : c = '"'
      · rw [if_pos hquote, if_pos hquote, if_pos hquote, if_pos hquote]
        exact ⟨ih.2, ih.1⟩
      · rw [if_neg hquote, if_neg hquote, if_neg hquote, if_neg hquote, ← ih.1, ← ih.2]
        exact ⟨bracketCount_cons c _, rfl⟩

/-- The depth of a text counts the brackets that stand outside of strings, where every quote begins or ends
one.  It stays the same when invisible characters are taken out.  So pressing enter, which looks at the
text as it was typed, submits it if it starts with a slash or if no bracket is open in what is run. -/
theorem openDepth_eq_bracketCount (text : String) :
    openDepth text = bracketCount (unquoted false text.toList) ∧
      openDepth (visible text) = openDepth text ∧
      Shell.isComplete text = (text.toList.head? = some '/' || openDepth (visible text) ≤ 0) := by
  refine ⟨?_, openDepth_visible text, ?_⟩
  · rw [openDepth_eq_outside, (bracketCount_unquoted text.toList).1]
  · rw [openDepth_visible]
    rfl

/-- Taking out what cannot be seen joins two symbols into one, and the string that is left open takes up the
bracket either way. -/
example : openDepth "(a =\u200b= \"\u00a0)" = 1 ∧ openDepth (visible "(a =\u200b= \"\u00a0)") = 1 := by
  decide +kernel

end Quotes

end Characters

end Scriptlet
