import Mathlib.Data.List.Chain
import Scriptlet.Proofs.Scanner.Spelling

/-!
# Printing lexemes

Lexemes are printed one after the other, and the scanner finds them again.

**Lexemes.**  A printed lexeme is a run of letters, a run of digits, a symbol, a text in quotes, or a
single character that belongs to no other lexeme.  It carries the proof that it is one of these.

**Separators.**  Any white space may stand in front of a lexeme.  None need stand there, unless the
lexeme and the one before it would run together (`Printed.merges`).

**The end.**  A text ends in white space, or in a quote that is never closed with the text after it.

**Method.**  A lexeme grows by certain characters only (`Printed.growsBy`), and two lexemes that do not
run together are such that the first does not grow by the first character of the second.

**Results.**
* `Printed.wordsOf_append`: a lexeme is read as its word, whatever follows by which it does not grow.
* `Printout.tokenize_text`: the tokens of a printout are its lexemes and the end token.
-/

namespace Scriptlet

/-- The reserved words, each with its kind. -/
def reservedWords : List (String × TokenKind) :=
  [("fn", .functionWord), ("let", .letWord), ("true", .trueWord), ("false", .falseWord),
    ("if", .ifWord), ("else", .elseWord), ("return", .returnWord)]

/-- The kinds whose lexemes are symbols: operators and delimiters. -/
def symbolKinds : List TokenKind :=
  [.assign, .plus, .minus, .bang, .asterisk, .slash, .lt, .gt, .eq, .notEq, .comma, .semicolon,
    .colon, .lparen, .rparen, .lbrace, .rbrace, .lbracket, .rbracket]

/-- A character that is no white space and starts no lexeme of the language. -/
def isStray (c : Char) : Bool :=
  c ∉ marks && !isLetter c && !isDigit c

theorem ofWord_eq_lookup (text : String) :
    TokenKind.ofWord text = (reservedWords.lookup text).getD .ident := by
  unfold TokenKind.ofWord
  split
  case h_8 hfn hlet htrue hfalse hif helse hreturn =>
      have hnone : reservedWords.lookup text = none := by
        rw [List.lookup_eq_none_iff]
        simpa [reservedWords] using ⟨hfn, hlet, htrue, hfalse, hif, helse, hreturn⟩
      rw [hnone]
      rfl
  all_goals rfl

/-- A lexeme to be printed. -/
inductive Printed where
  | letters (run : List Char) (nonempty : run ≠ []) (all : run.all isLetter = true)
  | digits (run : List Char) (nonempty : run ≠ []) (all : run.all isDigit = true)
  | symbol (kind : TokenKind) (known : kind ∈ symbolKinds)
  | quoted (body : List Char) (closed : '"' ∉ body)
  | stray (c : Char) (unknown : isStray c = true)

namespace Printed

/-- The characters of a lexeme; a symbol is the text it is displayed as. -/
def text : Printed → List Char
  | letters run _ _ => run
  | digits run _ _ => run
  | symbol kind _ => kind.display.toList
  | quoted body _ => '"' :: (body ++ ['"'])
  | stray c _ => [c]

/-- The kind and text of the token that a lexeme is to be read as. -/
def word : Printed → Word
  | letters run _ _ =>
      ⟨(reservedWords.lookup (String.ofList run)).getD .ident, String.ofList run⟩
  | digits run _ _ => ⟨.int, String.ofList run⟩
  | symbol kind _ => ⟨kind, kind.display⟩
  | quoted body _ => ⟨.string, String.ofList body⟩
  | stray c _ => ⟨.illegal, String.ofList [c]⟩

/-- Whether two lexemes run together if nothing stands between them. -/
def merges : Printed → Printed → Bool
  | letters _ _ _, letters _ _ _ => true
  | digits _ _ _, digits _ _ _ => true
  | left, right => (left.text = ['='] || left.text = ['!']) && right.text.head? = some '='

/-- The characters that a lexeme takes up if they follow it. -/
def growsBy : Printed → Char → Bool
  | letters _ _ _, c => isLetter c
  | digits _ _ _, c => isDigit c
  | symbol kind _, c => (kind = .assign || kind = .bang) && c = '='
  | quoted _ _, _ => false
  | stray _ _, _ => false

section Step

variable {after : List Char}

theorem wordsOf_symbolKind {kind : TokenKind} (hknown : kind ∈ symbolKinds)
    (hafter : kind = .assign ∨ kind = .bang → after.head? ≠ some '=') :
    wordsOf (kind.display.toList ++ after) = ⟨kind, kind.display⟩ :: wordsOf after := by
  cases kind with
  | assign => exact wordsOf_paired (c := '=') rfl (hafter (Or.inl rfl))
  | bang => exact wordsOf_paired (c := '!') rfl (hafter (Or.inr rfl))
  | eq => exact wordsOf_doubled (c := '=') rfl after
  | notEq => exact wordsOf_doubled (c := '!') rfl after
  | plus => exact wordsOf_symbol (c := '+') rfl after
  | minus => exact wordsOf_symbol (c := '-') rfl after
  | asterisk => exact wordsOf_symbol (c := '*') rfl after
  | slash => exact wordsOf_symbol (c := '/') rfl after
  | lt => exact wordsOf_symbol (c := '<') rfl after
  | gt => exact wordsOf_symbol (c := '>') rfl after
  | comma => exact wordsOf_symbol (c := ',') rfl after
  | semicolon => exact wordsOf_symbol (c := ';') rfl after
  | colon => exact wordsOf_symbol (c := ':') rfl after
  | lparen => exact wordsOf_symbol (c := '(') rfl after
  | rparen => exact wordsOf_symbol (c := ')') rfl after
  | lbrace => exact wordsOf_symbol (c := '\x7b') rfl after
  | rbrace => exact wordsOf_symbol (c := '\x7d') rfl after
  | lbracket => exact wordsOf_symbol (c := '[') rfl after
  | rbracket => exact wordsOf_symbol (c := ']') rfl after
  | _ => exact absurd hknown (by decide)

theorem wordsOf_stray {c : Char} (hc : isStray c = true) (after : List Char) :
    wordsOf (c :: after) = ⟨.illegal, String.ofList [c]⟩ :: wordsOf after := by
  simp only [isStray, Bool.and_eq_true, decide_eq_true_eq, Bool.not_eq_true'] at hc
  obtain ⟨⟨hmark, hletter⟩, hdigit⟩ := hc
  obtain ⟨hspace, hpaired, hsymbol, hquote⟩ := read_of_not_mem_marks hmark
  have hread : Lexeme.read c ([] ++ after) = ⟨.illegal, [c], 1⟩ := by
    simp only [Lexeme.read, hpaired, hsymbol, if_neg hquote, hletter, hdigit]
    rfl
  exact wordsOf_of_read hspace hread rfl

/-- A lexeme is read as its word, whatever follows by which it does not grow. -/
theorem wordsOf_append (lexeme : Printed) (hafter : ∀ c ∈ after.head?, lexeme.growsBy c = false) :
    wordsOf (lexeme.text ++ after) = lexeme.word :: wordsOf after := by
  cases lexeme with
  | letters run hne hall => rw [text, wordsOf_letters hne hall hafter, word, ofWord_eq_lookup]
  | digits run hne hall => exact wordsOf_digits hne hall hafter
  | symbol kind hknown =>
      refine wordsOf_symbolKind hknown ?_
      intro hkind hequals
      have hgrows := hafter '=' hequals
      rcases hkind with rfl | rfl
      · cases hgrows
      · cases hgrows
  | quoted body hclosed =>
      rw [text, List.cons_append, List.append_assoc, List.singleton_append]
      exact wordsOf_quoted hclosed
  | stray c hc => exact wordsOf_stray hc after

end Step

section Neighbours

theorem text_ne_nil (lexeme : Printed) : lexeme.text ≠ [] := by
  cases lexeme with
  | letters run hne hall => exact hne
  | digits run hne hall => exact hne
  | symbol kind hknown =>
      have hsymbols : ∀ kind ∈ symbolKinds, kind.display.toList ≠ [] := by decide
      exact hsymbols kind hknown
  | quoted body hclosed => exact List.cons_ne_nil _ _
  | stray c hc => exact List.cons_ne_nil _ _

theorem not_of_symbolKind {kind : TokenKind} {c : Char} (hknown : kind ∈ symbolKinds)
    (hc : c ∈ kind.display.toList.head?) : isLetter c = false ∧ isDigit c = false := by
  have hall : symbolKinds.all (fun kind =>
      kind.display.toList.head?.all fun c => !isLetter c && !isDigit c) = true := by decide
  have hkind := List.all_eq_true.mp hall kind hknown
  have hhead : kind.display.toList.head? = some c := hc
  rw [hhead] at hkind
  simpa using hkind

/-- A lexeme that starts with a letter is a run of letters. -/
theorem isLetter_head {lexeme : Printed} {c : Char} (hc : c ∈ lexeme.text.head?)
    (hletter : isLetter c = true) : ∃ run hne hall, lexeme = letters run hne hall := by
  cases lexeme with
  | letters run hne hall => exact ⟨run, hne, hall, rfl⟩
  | digits run hne hall =>
      have hdigit := List.all_eq_true.mp hall c (List.mem_of_mem_head? hc)
      rw [(digit_not_mem_marks hdigit).2] at hletter
      cases hletter
  | symbol kind hknown =>
      rw [(not_of_symbolKind hknown hc).1] at hletter
      cases hletter
  | quoted body hclosed =>
      cases hc
      cases hletter
  | stray d hd =>
      cases hc
      simp [isStray, hletter] at hd

/-- A lexeme that starts with a digit is a run of digits. -/
theorem isDigit_head {lexeme : Printed} {c : Char} (hc : c ∈ lexeme.text.head?)
    (hdigit : isDigit c = true) : ∃ run hne hall, lexeme = digits run hne hall := by
  cases lexeme with
  | letters run hne hall =>
      have hletter := List.all_eq_true.mp hall c (List.mem_of_mem_head? hc)
      rw [(digit_not_mem_marks hdigit).2] at hletter
      cases hletter
  | digits run hne hall => exact ⟨run, hne, hall, rfl⟩
  | symbol kind hknown =>
      rw [(not_of_symbolKind hknown hc).2] at hdigit
      cases hdigit
  | quoted body hclosed =>
      cases hc
      cases hdigit
  | stray d hd =>
      cases hc
      simp [isStray, hdigit] at hd

theorem merges_symbol (kind : TokenKind) (known : kind ∈ symbolKinds) (right : Printed) :
    (symbol kind known).merges right =
      ((kind.display.toList = ['='] || kind.display.toList = ['!']) &&
        right.text.head? = some '=') := by
  cases right <;> rfl

/-- A lexeme does not grow by the first character of one that it does not run together with. -/
theorem growsBy_of_not_merges {left right : Printed} (h : left.merges right = false) :
    ∀ c ∈ right.text.head?, left.growsBy c = false := by
  intro c hc
  cases hgrows : left.growsBy c with
  | false => rfl
  | true =>
      cases left with
      | letters run hne hall =>
          obtain ⟨run', hne', hall', rfl⟩ := isLetter_head hc hgrows
          cases h
      | digits run hne hall =>
          obtain ⟨run', hne', hall', rfl⟩ := isDigit_head hc hgrows
          cases h
      | symbol kind hknown =>
          simp only [growsBy, Bool.and_eq_true, Bool.or_eq_true, decide_eq_true_eq] at hgrows
          obtain ⟨hkind, rfl⟩ := hgrows
          have hright : right.text.head? = some '=' := hc
          rw [merges_symbol, hright] at h
          rcases hkind with rfl | rfl
          · exact absurd h (by decide)
          · exact absurd h (by decide)
      | quoted body hclosed => cases hgrows
      | stray d hd => cases hgrows

/-- No lexeme grows by white space, or by a quote. -/
theorem growsBy_eq_false (lexeme : Printed) {c : Char} (hc : isSpace c = true ∨ c = '"') :
    lexeme.growsBy c = false := by
  have hclass : isLetter c = false ∧ isDigit c = false ∧ c ≠ '=' := by
    rcases hc with hspace | rfl
    · obtain ⟨hletter, hdigit⟩ := not_of_isSpace hspace
      refine ⟨hletter, hdigit, ?_⟩
      rintro rfl
      cases hspace
    · decide
  cases lexeme with
  | letters run hne hall => exact hclass.1
  | digits run hne hall => exact hclass.2.1
  | symbol kind hknown => simp [growsBy, hclass.2.2]
  | quoted body hclosed => rfl
  | stray d hd => rfl

end Neighbours

end Printed

/-- A lexeme with the white space in front of it. -/
structure Item where
  gap : List Char
  lexeme : Printed
  blank : gap.all isSpace = true

def Item.text (item : Item) : List Char :=
  item.gap ++ item.lexeme.text

/-- How a printout ends: in white space, or in a quote that is never closed and the text after it. -/
inductive Ending where
  | blank (gap : List Char) (blank : gap.all isSpace = true)
  | unclosed (gap body : List Char) (blank : gap.all isSpace = true) (unclosed : '"' ∉ body)

namespace Ending

def text : Ending → List Char
  | blank gap _ => gap
  | unclosed gap body _ _ => gap ++ '"' :: body

/-- The words that an ending is to be read as. -/
def words : Ending → List Word
  | blank _ _ => []
  | unclosed _ body _ _ => [⟨.illegal, String.ofList ('"' :: body)⟩]

theorem wordsOf_text (ending : Ending) : wordsOf ending.text = ending.words := by
  cases ending with
  | blank gap hgap =>
      have hwords := wordsOf_gap hgap []
      rw [List.append_nil, wordsOf_nil] at hwords
      exact hwords
  | unclosed gap body hgap hbody => exact (wordsOf_gap hgap _).trans (wordsOf_unclosed hbody)

theorem head?_text (ending : Ending) : ∀ c ∈ ending.text.head?, isSpace c = true ∨ c = '"' := by
  intro c hc
  cases ending with
  | blank gap hgap => exact Or.inl (List.all_eq_true.mp hgap c (List.mem_of_mem_head? hc))
  | unclosed gap body hgap hbody =>
      cases gap with
      | nil =>
          cases hc
          exact Or.inr rfl
      | cons d gap => exact Or.inl (List.all_eq_true.mp hgap c (List.mem_of_mem_head? hc))

end Ending

/-- Lexemes with white space between them; it may be left out where they do not run together. -/
structure Printout where
  items : List Item
  ending : Ending
  apart : items.IsChain fun left right => right.gap = [] → left.lexeme.merges right.lexeme = false

namespace Printout

def text (p : Printout) : String :=
  String.ofList (p.items.flatMap Item.text ++ p.ending.text)

/-- The words that a printout is to be read as. -/
def words (p : Printout) : List Word :=
  p.items.map (fun item => item.lexeme.word) ++ p.ending.words

/-- What comes after a lexeme does not make it grow. -/
theorem growsBy_head {item : Item} {rest : List Item} {ending : Ending}
    (h : (item :: rest).IsChain fun left right =>
      right.gap = [] → left.lexeme.merges right.lexeme = false) :
    ∀ c ∈ (rest.flatMap Item.text ++ ending.text).head?, item.lexeme.growsBy c = false := by
  intro c hc
  cases rest with
  | nil => exact item.lexeme.growsBy_eq_false (ending.head?_text c hc)
  | cons next rest =>
      obtain ⟨hapart, -⟩ := List.isChain_cons_cons.mp h
      rw [List.flatMap_cons, List.append_assoc, Item.text] at hc
      cases hgap : next.gap with
      | nil =>
          rw [hgap, List.nil_append, List.head?_append_of_ne_nil _ next.lexeme.text_ne_nil] at hc
          exact Printed.growsBy_of_not_merges (hapart hgap) c hc
      | cons d gap =>
          have hblank := next.blank
          rw [hgap] at hc hblank
          have hcd : d = c := Option.some.inj hc
          have hspace : isSpace c = true :=
            List.all_eq_true.mp hblank c (hcd ▸ List.mem_cons_self)
          exact item.lexeme.growsBy_eq_false (Or.inl hspace)

theorem wordsOf_items {items : List Item} (ending : Ending)
    (h : items.IsChain fun left right => right.gap = [] → left.lexeme.merges right.lexeme = false) :
    wordsOf (items.flatMap Item.text ++ ending.text) =
      items.map (fun item => item.lexeme.word) ++ ending.words := by
  induction items with
  | nil => exact ending.wordsOf_text
  | cons item rest ih =>
      rw [List.flatMap_cons, Item.text, List.append_assoc, List.append_assoc,
        wordsOf_gap item.blank, item.lexeme.wordsOf_append (growsBy_head h), ih h.tail,
        List.map_cons, List.cons_append]

/-- The tokens of a printout are its lexemes, each of its kind and with its text, and the end token. -/
theorem tokenize_text (p : Printout) :
    (tokenize p.text).map Token.word = p.words ++ [⟨.eof, ""⟩] := by
  have hwords : (Scanner.ofString p.text).words = p.words := by
    rw [Scanner.words_eq]
    show wordsOf p.text.toList = p.words
    rw [text, String.toList_ofList]
    exact wordsOf_items p.ending p.apart
  rw [tokenize, Scanner.map_word_tokens, hwords]

/-- Six lexemes with white space in one place only, where it must stand, and a quote that is never
closed. -/
example :
    let p : Printout :=
      { items :=
          [⟨[], .letters ['i', 'f'] (by decide) rfl, rfl⟩, ⟨[], .digits ['1'] (by decide) rfl, rfl⟩,
            ⟨[], .symbol .notEq (by decide), rfl⟩, ⟨[], .symbol .assign (by decide), rfl⟩,
            ⟨['\t'], .symbol .eq (by decide), rfl⟩, ⟨[], .stray '&' (by decide), rfl⟩]
        ending := .unclosed [] ['y', ' '] rfl (by decide)
        apart := by decide }
    p.text = "if1!==\t==&\"y " ∧
      p.words = [⟨.ifWord, "if"⟩, ⟨.int, "1"⟩, ⟨.notEq, "!="⟩, ⟨.assign, "="⟩, ⟨.eq, "=="⟩,
        ⟨.illegal, "&"⟩, ⟨.illegal, "\"y "⟩] := by
  decide

end Printout

end Scriptlet
