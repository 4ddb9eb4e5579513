import Scriptlet.Proofs.Scanner.Words

/-!
# Spelling

How words are spelled, and how a text of spelled words is read.

**Lexemes.**  `wordOf lexeme` is the word that a lexeme is read as when it stands alone.  A *solid*
lexeme is read as that one word in front of white space and at the end of the text as well.

**Spaced texts.**  In a spaced text, lexemes stand one after the other with white space between each
two, and perhaps in front of the first and after the last.

**Where a lexeme ends.**  Each kind of lexeme is read as one word up to a character that cannot extend
it: a run ends in front of any other character, `=` and `!` end where no `=` follows, and every other
lexeme ends by itself.

**Results.**
* `wordsOf_of_spaced`: a spaced text of solid lexemes is read as their words.
* `wordsOf_letters`, `wordsOf_digits`, `wordsOf_symbol`, `wordsOf_paired`, `wordsOf_doubled`,
  `wordsOf_quoted`: what a lexeme is read as, for whatever follows that does not extend it.
* `solid_of_letters`, `solid_of_digits`, `solid_quoted`, `solid_fixed`: every kind of lexeme is solid.
-/

namespace Scriptlet

/-- The word that a lexeme is read as. -/
def wordOf (lexeme : String) : Word :=
  match lexeme.toList with
  | [] => ⟨.illegal, ""⟩
  | c :: cs => ⟨(Lexeme.read c cs).kind, String.ofList (Lexeme.read c cs).text⟩

/-- White space comes first, or nothing at all. -/
def Parted (cs : List Char) : Prop :=
  ∀ c ∈ cs.head?, isSpace c = true

/-- A lexeme that is read as one word wherever nothing but white space follows it. -/
def Solid (lexeme : String) : Prop :=
  ∀ after, Parted after → wordsOf (lexeme.toList ++ after) = wordOf lexeme :: wordsOf after

/-- The lexemes stand one after the other, with white space between each two. -/
inductive Spaced : List String → List Char → Prop
  | nil {gap : List Char} :
      gap.all isSpace →
      Spaced [] gap
  | cons {lexeme : String} {lexemes : List String} {gap rest : List Char} :
      gap.all isSpace →
      Parted rest →
      Spaced lexemes rest →
      Spaced (lexeme :: lexemes) (gap ++ (lexeme.toList ++ rest))

/-- One blank in front of each lexeme is enough. -/
theorem spaced_flatMap (lexemes : List String) :
    Spaced lexemes (lexemes.flatMap fun lexeme => ' ' :: lexeme.toList) := by
  induction lexemes with
  | nil => exact .nil rfl
  | cons lexeme rest ih =>
      have hparted : Parted (rest.flatMap fun lexeme => ' ' :: lexeme.toList) := by
        intro c hc
        cases rest with
        | nil => cases hc
        | cons next rest =>
            rw [List.flatMap_cons, List.cons_append, List.head?_cons, Option.mem_some_iff] at hc
            rw [← hc]
            rfl
      have hgap : [' '].all isSpace = true := rfl
      exact .cons hgap hparted ih

theorem dropWhile_gap {gap : List Char} (h : gap.all isSpace) (cs : List Char) :
    (gap ++ cs).dropWhile isSpace = cs.dropWhile isSpace := by
  apply List.dropWhile_append_of_pos
  exact List.all_eq_true.mp h

/-- White space that ends within a text ends there whatever follows the text. -/
theorem gap_append_of_rest {cs : List Char} {c : Char} {rest : List Char}
    (h : cs.dropWhile isSpace = c :: rest) (more : List Char) :
    (cs ++ more).takeWhile isSpace = cs.takeWhile isSpace ∧
      (cs ++ more).dropWhile isSpace = c :: (rest ++ more) := by
  have hsplit := List.takeWhile_append_dropWhile (p := isSpace) (l := cs)
  have hne : (cs.takeWhile isSpace).length ≠ cs.length := by
    have hlength := congrArg List.length hsplit
    rw [h, List.length_append, List.length_cons] at hlength
    omega
  rw [List.takeWhile_append, if_neg hne, List.dropWhile_append, h]
  exact ⟨rfl, rfl⟩

theorem wordsOf_gap {gap : List Char} (h : gap.all isSpace) (cs : List Char) :
    wordsOf (gap ++ cs) = wordsOf cs := by
  have hdrop := dropWhile_gap h cs
  cases hcs : cs.dropWhile isSpace with
  | nil =>
      rw [hcs] at hdrop
      rw [wordsOf_of_blank hdrop, wordsOf_of_blank hcs]
  | cons c rest =>
      rw [hcs] at hdrop
      rw [wordsOf_of_rest hdrop, wordsOf_of_rest hcs]

theorem wordsOf_of_spaced {lexemes : List String} {text : List Char} (h : Spaced lexemes text)
    (hsolid : ∀ lexeme ∈ lexemes, Solid lexeme) : wordsOf text = lexemes.map wordOf := by
  induction h with
  | @nil gap hgap =>
      apply wordsOf_of_blank
      rw [← List.append_nil gap, dropWhile_gap hgap, List.dropWhile_nil]
  | cons hgap hparted _ ih =>
      rw [wordsOf_gap hgap, hsolid _ List.mem_cons_self _ hparted, List.map_cons]
      rw [ih fun lexeme hlexeme => hsolid lexeme (List.mem_cons_of_mem _ hlexeme)]

section Classes

/-- White space, quotes and the characters that symbols start with. -/
def marks : List Char :=
  [' ', '\t', '\n', '\r', '"', '=', '!', '+', '-', '*', '/', '<', '>', ',', ';', ':', '(', ')',
    '\x7b', '\x7d', '[', ']']

theorem read_of_not_mem_marks {c : Char} (h : c ∉ marks) :
    isSpace c = false ∧ paired? c = none ∧ symbol? c = none ∧ c ≠ '"' := by
  refine ⟨?_, ?_, ?_, ?_⟩
  · cases hspace : isSpace c with
    | false => rfl
    | true =>
        simp only [isSpace, Bool.or_eq_true, beq_iff_eq] at hspace
        rcases hspace with ((rfl | rfl) | rfl) | rfl
        all_goals exact absurd (by decide) h
  · unfold paired?
    split
    all_goals first | rfl | exact absurd (by decide) h
  · unfold symbol?
    split
    all_goals first | rfl | exact absurd (by decide) h
  · rintro rfl
    exact absurd (by decide) h

theorem letter_not_mem_marks {c : Char} (h : isLetter c = true) : c ∉ marks := by
  intro hmark
  have hnone : marks.all (fun d => !isLetter d) = true := by decide
  have hc := List.all_eq_true.mp hnone c hmark
  simp [h] at hc

theorem digit_not_mem_marks {c : Char} (h : isDigit c = true) : c ∉ marks ∧ isLetter c = false := by
  constructor
  · intro hmark
    have hnone : marks.all (fun d => !isDigit d) = true := by decide
    have hc := List.all_eq_true.mp hnone c hmark
    simp [h] at hc
  · cases hletter : isLetter c with
    | false => rfl
    | true =>
        simp only [isDigit, isLetter, Bool.and_eq_true, Bool.or_eq_true, decide_eq_true_eq,
          beq_iff_eq, Char.le_def, UInt32.le_iff_toNat_le] at h hletter
        obtain ⟨_, hnine⟩ := h
        have hnine : c.val.toNat ≤ 57 := hnine
        rcases hletter with (⟨ha, _⟩ | ⟨ha, _⟩) | rfl
        · have ha : 97 ≤ c.val.toNat := ha
          omega
        · have ha : 65 ≤ c.val.toNat := ha
          omega
        · exact absurd hnine (by decide)

theorem read_letter {c : Char} (h : isLetter c = true) (rest : List Char) :
    Lexeme.read c rest =
      ⟨.ofWord (String.ofList (c :: rest.takeWhile isLetter)), c :: rest.takeWhile isLetter,
        (c :: rest.takeWhile isLetter).length⟩ := by
  obtain ⟨-, hpaired, hsymbol, hquote⟩ := read_of_not_mem_marks (letter_not_mem_marks h)
  simp only [Lexeme.read, hpaired, hsymbol, if_neg hquote, h, if_true]

theorem read_digit {c : Char} (h : isDigit c = true) (rest : List Char) :
    Lexeme.read c rest =
      ⟨.int, c :: rest.takeWhile isDigit, (c :: rest.takeWhile isDigit).length⟩ := by
  obtain ⟨hmark, hletter⟩ := digit_not_mem_marks h
  obtain ⟨-, hpaired, hsymbol, hquote⟩ := read_of_not_mem_marks hmark
  simp only [Lexeme.read, hpaired, hsymbol, if_neg hquote, hletter, h, if_true]
  rfl

theorem isSpace_of_symbol? {c : Char} {kind : TokenKind} (h : symbol? c = some kind) :
    isSpace c = false ∧ paired? c = none := by
  constructor
  · cases hspace : isSpace c with
    | false => rfl
    | true =>
        simp only [isSpace, Bool.or_eq_true, beq_iff_eq] at hspace
        rcases hspace with ((rfl | rfl) | rfl) | rfl
        all_goals cases h
  · unfold paired?
    split
    all_goals first | rfl | cases h

theorem isSpace_of_paired? {c : Char} {kinds : TokenKind × TokenKind} (h : paired? c = some kinds) :
    isSpace c = false := by
  unfold paired? at h
  split at h
  · rfl
  · rfl
  · cases h

theorem not_of_isSpace {c : Char} (h : isSpace c = true) :
    isLetter c = false ∧ isDigit c = false := by
  simp only [isSpace, Bool.or_eq_true, beq_iff_eq] at h
  rcases h with ((rfl | rfl) | rfl) | rfl
  all_goals decide

end Classes

section Lexemes

variable {after : List Char}

/-- What starts with a character that is no white space is read as the lexeme found there, if the
lexeme takes up no more and no less. -/
theorem wordsOf_of_read {c : Char} {cs : List Char} {found : Lexeme} (hc : isSpace c = false)
    (hread : Lexeme.read c (cs ++ after) = found) (hwidth : found.width = cs.length + 1) :
    wordsOf (c :: (cs ++ after)) = ⟨found.kind, String.ofList found.text⟩ :: wordsOf after := by
  have hdrop : (c :: (cs ++ after)).dropWhile isSpace = c :: (cs ++ after) :=
    List.dropWhile_cons_of_neg (by simp [hc])
  rw [wordsOf_of_rest hdrop, hread, hwidth, List.drop_succ_cons, List.drop_left]

/-- A run of characters does not go on beyond a text if what follows cannot belong to it. -/
theorem takeWhile_append_of_stop {p : Char → Bool} (cs : List Char)
    (hafter : ∀ c ∈ after.head?, p c = false) : (cs ++ after).takeWhile p = cs.takeWhile p := by
  induction cs with
  | nil =>
      cases after with
      | nil => rfl
      | cons c rest =>
          have hc : p c = false := hafter c rfl
          exact List.takeWhile_cons_of_neg (by simp [hc])
  | cons c cs ih => rw [List.cons_append, List.takeWhile_cons, List.takeWhile_cons, ih]

/-- A run of characters ends in front of one that cannot belong to it. -/
theorem takeWhile_append_of_head {p : Char → Bool} {cs : List Char} (hcs : ∀ c ∈ cs, p c = true)
    (hafter : ∀ c ∈ after.head?, p c = false) : (cs ++ after).takeWhile p = cs := by
  rw [takeWhile_append_of_stop cs hafter, ← List.append_nil cs, List.takeWhile_append_of_pos hcs,
    List.takeWhile_nil]

/-- A run of letters is a word, up to the next character that is no letter. -/
theorem wordsOf_letters {run : List Char} (hne : run ≠ []) (hrun : run.all isLetter = true)
    (hafter : ∀ c ∈ after.head?, isLetter c = false) :
    wordsOf (run ++ after) = ⟨.ofWord (String.ofList run), String.ofList run⟩ :: wordsOf after := by
  cases run with
  | nil => exact absurd rfl hne
  | cons c cs =>
      rw [List.all_cons, Bool.and_eq_true] at hrun
      obtain ⟨hc, hcs⟩ := hrun
      have hspace := (read_of_not_mem_marks (letter_not_mem_marks hc)).1
      have htake := takeWhile_append_of_head (List.all_eq_true.mp hcs) hafter
      have hread := read_letter hc (cs ++ after)
      rw [htake] at hread
      exact wordsOf_of_read hspace hread rfl

/-- A run of digits is a numeral, up to the next character that is no digit. -/
theorem wordsOf_digits {run : List Char} (hne : run ≠ []) (hrun : run.all isDigit = true)
    (hafter : ∀ c ∈ after.head?, isDigit c = false) :
    wordsOf (run ++ after) = ⟨.int, String.ofList run⟩ :: wordsOf after := by
  cases run with
  | nil => exact absurd rfl hne
  | cons c cs =>
      rw [List.all_cons, Bool.and_eq_true] at hrun
      obtain ⟨hc, hcs⟩ := hrun
      have hspace := (read_of_not_mem_marks (digit_not_mem_marks hc).1).1
      have htake := takeWhile_append_of_head (List.all_eq_true.mp hcs) hafter
      have hread := read_digit hc (cs ++ after)
      rw [htake] at hread
      exact wordsOf_of_read hspace hread rfl

/-- The text between quotes is a string. -/
theorem wordsOf_quoted {body : List Char} (h : '"' ∉ body) :
    wordsOf ('"' :: (body ++ '"' :: after)) = ⟨.string, String.ofList body⟩ :: wordsOf after := by
  have hbody : (body ++ '"' :: after).takeWhile (· != '"') = body := by
    apply takeWhile_append_of_head
    · intro c hc
      have hne : c ≠ '"' := fun heq => h (heq ▸ hc)
      simpa using hne
    · intro c hc
      cases hc
      rfl
  have hread : Lexeme.read '"' (body ++ ['"'] ++ after) = ⟨.string, body, body.length + 2⟩ := by
    rw [List.append_assoc]
    show Lexeme.quoted _ = _
    simp only [Lexeme.quoted, List.singleton_append, hbody]
    rw [if_pos (by simp)]
  have hwords := wordsOf_of_read (by decide) hread (by simp)
  rw [List.append_assoc] at hwords
  exact hwords

/-- A quote that no other follows makes the rest of the text illegal. -/
theorem wordsOf_unclosed {body : List Char} (h : '"' ∉ body) :
    wordsOf ('"' :: body) = [⟨.illegal, String.ofList ('"' :: body)⟩] := by
  have hbody : body.takeWhile (· != '"') = body := by
    have htake : (body ++ []).takeWhile (· != '"') = body := by
      apply takeWhile_append_of_head
      · intro c hc
        have hne : c ≠ '"' := fun heq => h (heq ▸ hc)
        simpa using hne
      · intro c hc
        cases hc
    rwa [List.append_nil] at htake
  have hread : Lexeme.read '"' (body ++ []) = ⟨.illegal, '"' :: body, body.length + 1⟩ := by
    rw [List.append_nil]
    show Lexeme.quoted _ = _
    simp only [Lexeme.quoted, hbody]
    rw [if_neg (Nat.lt_irrefl _)]
  have hwords := wordsOf_of_read (by decide) hread rfl
  rw [List.append_nil, wordsOf_nil] at hwords
  exact hwords

theorem wordsOf_symbol {c : Char} {kind : TokenKind} (h : symbol? c = some kind)
    (after : List Char) : wordsOf (c :: after) = ⟨kind, String.ofList [c]⟩ :: wordsOf after := by
  obtain ⟨hspace, hpaired⟩ := isSpace_of_symbol? h
  have hread : Lexeme.read c ([] ++ after) = ⟨kind, [c], 1⟩ := by
    simp only [Lexeme.read, hpaired, h]
  exact wordsOf_of_read hspace hread rfl

section Pairs

variable {c : Char} {alone doubled : TokenKind} (h : paired? c = some (alone, doubled))
include h

/-- A symbol that an equals sign may follow stands alone where none follows. -/
theorem wordsOf_paired (hafter : after.head? ≠ some '=') :
    wordsOf (c :: after) = ⟨alone, String.ofList [c]⟩ :: wordsOf after := by
  have hread : Lexeme.read c ([] ++ after) = ⟨alone, [c], 1⟩ := by
    simp only [Lexeme.read, h, List.nil_append, if_neg hafter]
  exact wordsOf_of_read (isSpace_of_paired? h) hread rfl

theorem wordsOf_doubled (after : List Char) :
    wordsOf (c :: '=' :: after) = ⟨doubled, String.ofList [c, '=']⟩ :: wordsOf after := by
  have hread : Lexeme.read c (['='] ++ after) = ⟨doubled, [c, '='], 2⟩ := by
    simp only [Lexeme.read, h, List.cons_append, List.head?_cons, if_true]
  exact wordsOf_of_read (isSpace_of_paired? h) hread rfl

end Pairs

end Lexemes

section Solids

theorem exists_cons_of_ne {lexeme : String} (hne : lexeme ≠ "") :
    ∃ c cs, lexeme.toList = c :: cs := by
  cases hlexeme : lexeme.toList with
  | nil => exact absurd (String.toList_eq_nil_iff.mp hlexeme) hne
  | cons c cs => exact ⟨c, cs, rfl⟩

variable {lexeme : String}

/-- A lexeme that is read as a word in front of white space is solid, and that is its word. -/
theorem solid_of_words {w : Word} {c : Char} {cs : List Char} (hlexeme : lexeme.toList = c :: cs)
    (hc : isSpace c = false)
    (h : ∀ after, Parted after → wordsOf (lexeme.toList ++ after) = w :: wordsOf after) :
    Solid lexeme ∧ wordOf lexeme = w := by
  have hword : wordOf lexeme = w := by
    have halone := h [] (fun _ hnone => by cases hnone)
    have hdrop : (c :: cs).dropWhile isSpace = c :: cs := List.dropWhile_cons_of_neg (by simp [hc])
    rw [List.append_nil, hlexeme, wordsOf_of_rest hdrop] at halone
    rw [wordOf, hlexeme]
    exact (List.cons.inj halone).1
  refine ⟨?_, hword⟩
  intro after hafter
  rw [h after hafter, hword]

/-- A run of letters is a word. -/
theorem solid_of_letters (hne : lexeme ≠ "") (h : lexeme.toList.all isLetter = true) :
    Solid lexeme ∧ wordOf lexeme = ⟨.ofWord lexeme, lexeme⟩ := by
  obtain ⟨c, cs, hlexeme⟩ := exists_cons_of_ne hne
  have hc : isLetter c = true := List.all_eq_true.mp h c (hlexeme ▸ List.mem_cons_self)
  refine solid_of_words hlexeme (read_of_not_mem_marks (letter_not_mem_marks hc)).1 ?_
  intro after hafter
  rw [wordsOf_letters (hlexeme ▸ List.cons_ne_nil c cs) h fun d hd => (not_of_isSpace (hafter d hd)).1,
    String.ofList_toList]

/-- A run of digits is a numeral. -/
theorem solid_of_digits (hne : lexeme ≠ "") (h : lexeme.toList.all isDigit = true) :
    Solid lexeme ∧ wordOf lexeme = ⟨.int, lexeme⟩ := by
  obtain ⟨c, cs, hlexeme⟩ := exists_cons_of_ne hne
  have hc : isDigit c = true := List.all_eq_true.mp h c (hlexeme ▸ List.mem_cons_self)
  refine solid_of_words hlexeme (read_of_not_mem_marks (digit_not_mem_marks hc).1).1 ?_
  intro after hafter
  rw [wordsOf_digits (hlexeme ▸ List.cons_ne_nil c cs) h fun d hd => (not_of_isSpace (hafter d hd)).2,
    String.ofList_toList]

/-- A text without quotes, in quotes, is a string. -/
theorem solid_quoted {text : String} (h : '"' ∉ text.toList) :
    Solid ("\"" ++ text ++ "\"") ∧ wordOf ("\"" ++ text ++ "\"") = ⟨.string, text⟩ := by
  have hlexeme : ("\"" ++ text ++ "\"").toList = '"' :: (text.toList ++ ['"']) := by
    rw [String.toList_append, String.toList_append]
    rfl
  refine solid_of_words hlexeme (by decide) ?_
  intro after _
  rw [hlexeme, List.cons_append, List.append_assoc, List.singleton_append, wordsOf_quoted h,
    String.ofList_toList]

theorem solid_of_symbol {c : Char} {kind : TokenKind} (hlexeme : lexeme.toList = [c])
    (h : symbol? c = some kind) : Solid lexeme ∧ wordOf lexeme = ⟨kind, lexeme⟩ := by
  refine solid_of_words hlexeme (isSpace_of_symbol? h).1 ?_
  intro after _
  rw [hlexeme, List.singleton_append, wordsOf_symbol h, ← hlexeme, String.ofList_toList]

section Pairs

variable {c : Char} {alone doubled : TokenKind} (h : paired? c = some (alone, doubled))
include h

/-- A symbol that an equals sign may follow ends where white space follows instead. -/
theorem solid_of_paired (hlexeme : lexeme.toList = [c]) :
    Solid lexeme ∧ wordOf lexeme = ⟨alone, lexeme⟩ := by
  refine solid_of_words hlexeme (isSpace_of_paired? h) ?_
  intro after hafter
  have hne : after.head? ≠ some '=' := by
    intro heq
    have hspace := hafter '=' heq
    cases hspace
  rw [hlexeme, List.singleton_append, wordsOf_paired h hne, ← hlexeme, String.ofList_toList]

theorem solid_of_doubled (hlexeme : lexeme.toList = [c, '=']) :
    Solid lexeme ∧ wordOf lexeme = ⟨doubled, lexeme⟩ := by
  refine solid_of_words hlexeme (isSpace_of_paired? h) ?_
  intro after _
  rw [hlexeme, List.cons_append, List.singleton_append, wordsOf_doubled h, ← hlexeme,
    String.ofList_toList]

end Pairs

end Solids

/-- The lexemes that are always the same: reserved words, operators, brackets and separators. -/
def fixedLexemes : List String :=
  ["fn", "let", "true", "false", "if", "else", "return"] ++
    ["+", "-", "*", "/", "<", ">", ",", ";", ":", "(", ")", "\x7b", "\x7d", "[", "]"] ++
    ["=", "!"] ++ ["==", "!="]

theorem solid_fixed {lexeme : String} (h : lexeme ∈ fixedLexemes) : Solid lexeme := by
  rcases List.mem_append.mp h with h | h
  · rcases List.mem_append.mp h with h | h
    · rcases List.mem_append.mp h with h | h
      · simp only [List.mem_cons, List.not_mem_nil, or_false] at h
        rcases h with rfl | rfl | rfl | rfl | rfl | rfl | rfl
        all_goals exact (solid_of_letters (by decide) rfl).1
      · simp only [List.mem_cons, List.not_mem_nil, or_false] at h
        rcases h with rfl | rfl | rfl | rfl | rfl | rfl | rfl | rfl | rfl | rfl | rfl | rfl | rfl |
          rfl | rfl
        all_goals exact (solid_of_symbol rfl rfl).1
    · simp only [List.mem_cons, List.not_mem_nil, or_false] at h
      rcases h with rfl | rfl
      all_goals exact (solid_of_paired (by rfl) rfl).1
  · simp only [List.mem_cons, List.not_mem_nil, or_false] at h
    rcases h with rfl | rfl
    all_goals exact (solid_of_doubled (by rfl) rfl).1

end Scriptlet
