import Scriptlet.Proofs.Scanner.Words

/-!
# How deep brackets and signs nest

What is open at a place in a text, whether or not the text can be read.

**Openings.**  An opening is a bracket, which waits for the closing bracket of its kind, or a sign, that is
an operator in front of its operand, which waits for the end of the operand.

**Places.**  After a token an operand may have to come, an item may start, or an operand may have ended.

**Closing.**  A closing bracket closes the innermost bracket if that is of its kind, and else nothing.  Where
an operand has to come it closes nothing either, for it stands in the place of the operand.  So all of
`fn(`, `[` and an opening brace can be closed at once, and a parenthesis around an operand cannot.  Signs
are settled by the first token after their operand; a call, an index or a block still belongs to it.

**Results.**
* `Enclosure.suffix_next`: what a token leaves open.
* `Enclosure.suffix_next_of_bracket`: no token closes more than the innermost bracket.
* `nestingDepth`: how deep a text nests.
-/

namespace Scriptlet

/-- What is open: a bracket with the kind that closes it, or a sign. -/
inductive Opening where
  | bracket (close : TokenKind)
  | sign
  deriving DecidableEq, Repr

/-- What may come at a place. -/
inductive Place where
  /-- An operand has to come. -/
  | operand
  /-- An item may start, or a bracket be closed. -/
  | item
  /-- An operand has ended. -/
  | ended
  deriving DecidableEq, Repr

/-- What is open at a place, the innermost first, and what may come there. -/
structure Enclosure where
  openings : List Opening
  place : Place
  deriving DecidableEq, Repr

/-- The kinds of closing brackets. -/
def TokenKind.closes (kind : TokenKind) : Bool :=
  kind ∈ [.rparen, .rbracket, .rbrace]

namespace Enclosure

/-- The start of a text. -/
def start : Enclosure :=
  ⟨[], .item⟩

/-- The openings without the signs that have had their operand. -/
def settled (c : Enclosure) : List Opening :=
  if c.place = .operand then c.openings else c.openings.dropWhile (· = .sign)

/-- After a closing bracket. -/
def close (c : Enclosure) (kind : TokenKind) : Enclosure :=
  if c.place ≠ .operand ∧ c.settled.head? = some (.bracket kind) then ⟨c.settled.tail, .ended⟩
  else ⟨c.openings, .ended⟩

/-- After a token. -/
def next (c : Enclosure) : TokenKind → Enclosure
  | .eof => c
  | .ident | .int | .string | .trueWord | .falseWord | .functionWord => ⟨c.settled, .ended⟩
  | .bang => ⟨.sign :: c.settled, .operand⟩
  -- between two operands it is no sign
  | .minus => ⟨if c.place = .ended then c.settled else .sign :: c.settled, .operand⟩
  | .plus | .asterisk | .slash | .lt | .gt | .eq | .notEq => ⟨c.settled, .operand⟩
  | .assign | .colon | .returnWord => ⟨c.settled, .operand⟩
  -- pairs may end after a comma, and a comma between expressions has one after it
  | .comma =>
      ⟨c.settled, if c.settled.head? = some (.bracket .rbrace) then .item else .operand⟩
  | .semicolon | .letWord | .ifWord | .illegal => ⟨c.settled, .item⟩
  | .elseWord => ⟨c.openings, .item⟩
  -- calls and lists may be empty, parentheses around an operand and an index may not
  | .lparen => ⟨.bracket .rparen :: c.openings, if c.place = .ended then .item else .operand⟩
  | .lbracket =>
      ⟨.bracket .rbracket :: c.openings, if c.place = .ended then .operand else .item⟩
  | .lbrace => ⟨.bracket .rbrace :: c.openings, .item⟩
  | .rparen => c.close .rparen
  | .rbracket => c.close .rbracket
  | .rbrace => c.close .rbrace

/-- How many openings there are at most from a place on. -/
def deepest (c : Enclosure) : List TokenKind → Nat
  | [] => c.openings.length
  | kind :: kinds => max c.openings.length ((c.next kind).deepest kinds)

variable {c : Enclosure} {inside : List Opening} {kind : TokenKind}

theorem length_le_deepest (c : Enclosure) (kinds : List TokenKind) :
    c.openings.length ≤ c.deepest kinds := by
  cases kinds with
  | nil => exact Nat.le_refl _
  | cons kind kinds => exact Nat.le_max_left _ _

theorem deepest_next_le (c : Enclosure) (kind : TokenKind) (kinds : List TokenKind) :
    (c.next kind).deepest kinds ≤ c.deepest (kind :: kinds) :=
  Nat.le_max_right _ _

section Openings

/-- Signs are dropped from above openings that do not start with one. -/
theorem suffix_dropWhile_sign {openings : List Opening} (h : inside <:+ openings)
    (hsign : inside.head? ≠ some .sign) : inside <:+ openings.dropWhile (· = .sign) := by
  induction openings with
  | nil => exact h
  | cons o openings ih =>
      rcases List.suffix_cons_iff.mp h with rfl | hrest
      · have ho : o ≠ .sign := fun ho => hsign (by rw [ho]; rfl)
        have hkept : (o :: openings).dropWhile (· = .sign) = o :: openings :=
          List.dropWhile_cons_of_neg (by simpa using ho)
        exact ⟨[], hkept.symm⟩
      · by_cases ho : o = .sign
        · rw [List.dropWhile_cons_of_pos (by simpa using ho)]
          exact ih hrest
        · rw [List.dropWhile_cons_of_neg (by simpa using ho)]
          exact h

theorem suffix_settled (h : inside <:+ c.openings)
    (hsign : c.place = .operand ∨ inside.head? ≠ some .sign) : inside <:+ c.settled := by
  rw [settled]
  split
  · exact h
  · next hplace => exact suffix_dropWhile_sign h (hsign.resolve_left hplace)

/-- Under a bracket there is something to be closed, and it is not more than the bracket. -/
theorem suffix_tail {o : Opening} {openings : List Opening} (h : o :: inside <:+ openings) :
    inside <:+ openings.tail := by
  obtain ⟨above, rfl⟩ := h
  cases above with
  | nil => exact List.suffix_refl _
  | cons a above => exact ⟨above ++ [o], by simp⟩

/-- What is inside openings that start otherwise is under the first of them. -/
theorem suffix_of_head?_ne {o : Opening} {openings : List Opening} (h : inside <:+ o :: openings)
    (hhead : inside.head? ≠ some o) : inside <:+ openings := by
  rcases List.suffix_cons_iff.mp h with rfl | hrest
  · exact absurd rfl hhead
  · exact hrest

theorem suffix_close (h : inside <:+ c.openings)
    (hsign : c.place = .operand ∨ inside.head? ≠ some .sign)
    (hclose : c.place = .operand ∨ inside.head? ≠ some (.bracket kind)) :
    inside <:+ (c.close kind).openings := by
  rw [close]
  split
  · next hcloses =>
      obtain ⟨o, openings, hsettled⟩ := List.exists_cons_of_ne_nil
        (fun hnil => by rw [hnil] at hcloses; cases hcloses.2 : c.settled ≠ [])
      have hunder := suffix_settled h hsign
      rw [hsettled] at hunder hcloses ⊢
      obtain rfl := Option.some.inj hcloses.2
      exact suffix_of_head?_ne hunder (hclose.resolve_left hcloses.1)
  · exact h

/-- What is open stays open, unless it starts with a sign that is settled or with a bracket that is
closed. -/
theorem suffix_next (h : inside <:+ c.openings)
    (hsign : c.place = .operand ∨ inside.head? ≠ some .sign)
    (hclose : c.place = .operand ∨ kind.closes = false ∨ inside.head? ≠ some (.bracket kind)) :
    inside <:+ (c.next kind).openings := by
  have hsettled := suffix_settled h hsign
  cases kind with
  | eof | elseWord => exact h
  | bang => exact hsettled.trans (List.suffix_cons _ _)
  | minus =>
      rw [next]
      split
      · exact hsettled
      · exact hsettled.trans (List.suffix_cons _ _)
  | lparen | lbracket | lbrace => exact h.trans (List.suffix_cons _ _)
  | rparen | rbracket | rbrace =>
      exact suffix_close h hsign (hclose.imp_right fun hor => hor.resolve_left (by decide))
  | _ => exact hsettled

/-- No token closes more than the innermost bracket. -/
theorem suffix_next_of_bracket {close : TokenKind} (h : .bracket close :: inside <:+ c.openings)
    (kind : TokenKind) : inside <:+ (c.next kind).openings := by
  have hunder : inside <:+ .bracket close :: inside := List.suffix_cons _ _
  have hsign : c.place = .operand ∨ (Opening.bracket close :: inside).head? ≠ some .sign :=
    Or.inr (by simp)
  have hcloses : ∀ kind, inside <:+ (c.close kind).openings := by
    intro kind
    rw [Enclosure.close]
    split
    · exact suffix_tail (suffix_settled h hsign)
    · exact hunder.trans h
  cases kind with
  | rparen | rbracket | rbrace => exact hcloses _
  | _ => exact hunder.trans (suffix_next h hsign (Or.inr (Or.inl rfl)))

/-- A comma leaves a bracket open that is no brace, and so does the token after it. -/
theorem suffix_next_comma {close : TokenKind} (h : .bracket close :: inside <:+ c.openings)
    (hbrace : close ≠ .rbrace) (kind : TokenKind) :
    .bracket close :: inside <:+ ((c.next .comma).next kind).openings := by
  have hsettled : .bracket close :: inside <:+ c.settled := suffix_settled h (Or.inr (by simp))
  by_cases hhead : c.settled.head? = some (.bracket .rbrace)
  · obtain ⟨openings, hopenings⟩ := List.head?_eq_some_iff.mp hhead
    have hcomma : .bracket .rbrace :: openings <:+ (c.next .comma).openings := by
      rw [← hopenings]
      exact List.suffix_refl _
    rw [hopenings] at hsettled
    exact (suffix_of_head?_ne hsettled (by simpa using hbrace)).trans
      (suffix_next_of_bracket hcomma kind)
  · have hplace : (c.next .comma).place = .operand := if_neg hhead
    exact suffix_next hsettled (Or.inl hplace) (Or.inl hplace)

end Openings

section Places

theorem place_close (c : Enclosure) (kind : TokenKind) : (c.close kind).place = .ended := by
  rw [close]
  split <;> rfl

theorem place_next_of_closes (c : Enclosure) (hcloses : kind.closes = true) :
    (c.next kind).place = .ended := by
  cases kind with
  | rparen | rbracket | rbrace => exact c.place_close _
  | _ => cases hcloses

theorem place_comma_ne (c : Enclosure) : (c.next .comma).place ≠ .ended := by
  rw [next]
  split <;> simp

end Places

/-- The end token leaves everything open. -/
theorem deepest_concat_eof (c : Enclosure) (kinds : List TokenKind) :
    c.deepest (kinds ++ [.eof]) = c.deepest kinds := by
  induction kinds generalizing c with
  | nil => exact Nat.max_self _
  | cons kind kinds ih => exact congrArg (max c.openings.length) (ih (c.next kind))

end Enclosure

/-- How deep the brackets and signs of a text nest. -/
def nestingDepth (source : String) : Nat :=
  Enclosure.start.deepest ((tokenize source).map Token.kind)

theorem nestingDepth_eq (source : String) :
    nestingDepth source = Enclosure.start.deepest ((wordsOf source.toList).map Word.kind) := by
  have hkinds : (tokenize source).map Token.kind =
      (wordsOf source.toList).map Word.kind ++ [.eof] := by
    calc (tokenize source).map Token.kind
        = ((tokenize source).map Token.word).map Word.kind := by rw [List.map_map]; rfl
      _ = ((Scanner.ofString source).words ++ [(⟨.eof, ""⟩ : Word)]).map Word.kind := by
          rw [tokenize, Scanner.map_word_tokens]
      _ = (wordsOf source.toList).map Word.kind ++ [.eof] := List.map_append
  rw [nestingDepth, hkinds, Enclosure.deepest_concat_eof]

/-- The calls are flat, and the parentheses around the operands and the signs nest. -/
example : nestingDepth "f(-(1))(2)[3]; !-x" = 3 := by decide +kernel

end Scriptlet
