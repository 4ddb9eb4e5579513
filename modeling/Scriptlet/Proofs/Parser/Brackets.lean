import Scriptlet.Proofs.Parser.Derivation

/-!
# Brackets

How the brackets of a derivation match, and when all its blocks are closed.

**Matching.**  `unmatched pending ws` goes through words with the brackets that are open, the last
opened first: an opening bracket is added, a closing one takes its own off the top, and anything else
it finds there is a mismatch.

**Closed derivations.**  Only the end of the words can end a block without a brace.  A phrase is derived
*closed* from words if it is derived from them whatever comes after: then every block in it ends with
a brace of its own.

**Results.**
* `exists_closed_of_derives`: a derivation that leaves words has used the words before them as a closed one.
* `Closed.unmatched_eq`: in a closed derivation every bracket is matched by its own.
-/

namespace Scriptlet

namespace TokenKind

/-- What a word of this kind makes of the brackets that are open. -/
def follow? : TokenKind → List TokenKind → Option (List TokenKind)
  | .lparen, pending => some (.lparen :: pending)
  | .lbracket, pending => some (.lbracket :: pending)
  | .lbrace, pending => some (.lbrace :: pending)
  | .rparen, .lparen :: pending => some pending
  | .rbracket, .lbracket :: pending => some pending
  | .rbrace, .lbrace :: pending => some pending
  | .rparen, _ => none
  | .rbracket, _ => none
  | .rbrace, _ => none
  | _, pending => some pending

end TokenKind

/-- The brackets that are open after the words, unless one of them does not match. -/
def unmatched : List TokenKind → List Word → Option (List TokenKind)
  | pending, [] => some pending
  | pending, w :: ws => (w.kind.follow? pending).bind fun pending => unmatched pending ws

theorem unmatched_cons (pending : List TokenKind) (w : Word) (ws : List Word) :
    unmatched pending (w :: ws) =
      (w.kind.follow? pending).bind fun pending => unmatched pending ws := rfl

theorem unmatched_append (pending : List TokenKind) (ws rest : List Word) :
    unmatched pending (ws ++ rest) =
      (unmatched pending ws).bind fun pending => unmatched pending rest := by
  induction ws generalizing pending with
  | nil => rfl
  | cons w ws ih =>
      rw [List.cons_append, unmatched_cons, unmatched_cons, Option.bind_assoc]
      exact Option.bind_congr fun pending _ => ih pending

namespace Parser

section Matching

theorem follow?_of_isBinaryOperator {kind : TokenKind} (h : isBinaryOperator kind = true)
    (pending : List TokenKind) : kind.follow? pending = some pending := by
  cases kind with
  | lparen => cases h
  | lbracket => cases h
  | lbrace => cases h
  | rparen => cases h
  | rbracket => cases h
  | rbrace => cases h
  | _ => rfl

theorem Ended.unmatched_eq {ws rest : List Word} (h : Ended ws rest) (pending : List TokenKind) :
    unmatched pending ws = unmatched pending rest := by
  rcases h with rfl | ⟨text, rfl⟩
  · rfl
  · rfl

theorem Ended.ne_nil {ws rest : List Word} (h : Ended ws rest) (hrest : rest ≠ []) : ws ≠ [] := by
  rcases h with rfl | ⟨text, rfl⟩
  · exact hrest
  · exact List.cons_ne_nil _ _

theorem Derives.ne_nil {φ : Phrase} {ws rest : List Word} (h : Derives φ ws rest)
    (hrest : rest ≠ []) : ws ≠ [] := by
  obtain ⟨used, rfl, -⟩ := h.uses
  exact List.append_ne_nil_of_right_ne_nil used hrest

/-- A derivation that leaves words has matched every bracket it used. -/
theorem Derives.unmatched_eq {φ : Phrase} {ws rest : List Word} (h : Derives φ ws rest)
    (hrest : rest ≠ []) (pending : List TokenKind) :
    unmatched pending ws = unmatched pending rest := by
  induction h generalizing pending with
  | more _ hbody ih₁ ih₂ => rw [ih₁ (hbody.ne_nil hrest), ih₂ hrest]
  | bind _ hend ih =>
      rw [← hend.unmatched_eq, ← ih (hend.ne_nil hrest)]
      rfl
  | ret _ hend ih =>
      rw [← hend.unmatched_eq, ← ih (hend.ne_nil hrest)]
      rfl
  | expr _ hend ih => rw [← hend.unmatched_eq, ← ih (hend.ne_nil hrest)]
  | closed _ ih => exact ih (List.cons_ne_nil _ _) (.lbrace :: pending)
  | unclosed => exact absurd rfl hrest
  | unary hop _ ih =>
      rw [unmatched_cons, ← ih hrest]
      rcases hop with hop | hop
      · rw [hop]
        rfl
      · rw [hop]
        rfl
  | grouped _ ih => exact ih (List.cons_ne_nil _ _) (.lparen :: pending)
  | conditional _ _ ih₁ ih₂ =>
      rw [← ih₂ hrest]
      exact ih₁ (List.cons_ne_nil _ _) (.lparen :: pending)
  | alternative _ _ _ ih₁ ih₂ ih₃ =>
      rw [← ih₃ hrest]
      exact (ih₁ (List.cons_ne_nil _ _) (.lparen :: pending)).trans
        (ih₂ (List.cons_ne_nil _ _) pending)
  | constant _ ih => exact ih hrest pending
  | function _ _ ih₁ ih₂ =>
      rw [← ih₂ hrest]
      exact ih₁ (List.cons_ne_nil _ _) (.lparen :: pending)
  | array _ ih => exact ih (List.cons_ne_nil _ _) (.lbracket :: pending)
  | hash _ ih => exact ih (List.cons_ne_nil _ _) (.lbrace :: pending)
  | binary _ hop _ ih₁ ih₂ =>
      rw [ih₁ (List.cons_ne_nil _ _), unmatched_cons, follow?_of_isBinaryOperator hop, ← ih₂ hrest]
      rfl
  | emptyCall _ ih => exact ih (List.cons_ne_nil _ _) pending
  | call _ _ ih₁ ih₂ =>
      exact (ih₁ (List.cons_ne_nil _ _) pending).trans
        (ih₂ (List.cons_ne_nil _ _) (.lparen :: pending))
  | index _ _ ih₁ ih₂ =>
      exact (ih₁ (List.cons_ne_nil _ _) pending).trans
        (ih₂ (List.cons_ne_nil _ _) (.lbracket :: pending))
  | lastExpression _ ih => exact ih hrest pending
  | moreExpressions _ _ ih₁ ih₂ =>
      exact (ih₁ (List.cons_ne_nil _ _) pending).trans (ih₂ hrest pending)
  | moreParameters _ ih => exact ih hrest pending
  | lastPair _ _ ih₁ ih₂ => exact (ih₁ (List.cons_ne_nil _ _) pending).trans (ih₂ hrest pending)
  | morePairs _ _ _ ih₁ ih₂ ih₃ =>
      rw [← ih₃ hrest]
      exact (ih₁ (List.cons_ne_nil _ _) pending).trans (ih₂ (List.cons_ne_nil _ _) pending)
  | _ => rfl

end Matching

section Closed

/-- The phrase is derived from the words whatever comes after them: no block in it is ended by the end
of the words. -/
def Closed (φ : Phrase) (ws : List Word) : Prop :=
  ∀ after, Derives φ (ws ++ after) after

theorem Ended.split {ws rest : List Word} (h : Ended ws rest) :
    ∃ gap, ws = gap ++ rest ∧ ∀ after, Ended (gap ++ after) after := by
  rcases h with rfl | ⟨text, rfl⟩
  · exact ⟨[], rfl, fun _ => Or.inl rfl⟩
  · exact ⟨[⟨.semicolon, text⟩], rfl, fun _ => Or.inr ⟨text, rfl⟩⟩

/-- Something derived up to a word, and the words from there on. -/
theorem Closed.append {φ : Phrase} {used : List Word} (h : Closed φ used) (more after : List Word) :
    Derives φ (used ++ more ++ after) (more ++ after) := by
  rw [List.append_assoc]
  exact h (more ++ after)

/-- A derivation that leaves words uses the words before them as a closed one: a block that the end of
the words ends leaves none. -/
theorem exists_closed_of_derives {φ : Phrase} {ws rest : List Word} (h : Derives φ ws rest)
    (hrest : rest ≠ []) : ∃ used, ws = used ++ rest ∧ Closed φ used := by
  induction h with
  | done => exact ⟨[], rfl, fun _ => .done⟩
  | more _ hbody ih₁ ih₂ =>
      obtain ⟨used₁, rfl, h₁⟩ := ih₁ (hbody.ne_nil hrest)
      obtain ⟨used₂, rfl, h₂⟩ := ih₂ hrest
      exact ⟨used₁ ++ used₂, (List.append_assoc ..).symm, fun after => .more (h₁.append _ _) (h₂ _)⟩
  | @bind name letText equalsText e ws mid rest _ hend ih =>
      obtain ⟨used, rfl, hused⟩ := ih (hend.ne_nil hrest)
      obtain ⟨gap, rfl, hgap⟩ := hend.split
      refine ⟨⟨.letWord, letText⟩ :: ⟨.ident, name⟩ :: ⟨.assign, equalsText⟩ :: (used ++ gap), by simp,
        fun after => ?_⟩
      exact .bind (hused.append gap after) (hgap after)
  | @ret returnText e ws mid rest _ hend ih =>
      obtain ⟨used, rfl, hused⟩ := ih (hend.ne_nil hrest)
      obtain ⟨gap, rfl, hgap⟩ := hend.split
      refine ⟨⟨.returnWord, returnText⟩ :: (used ++ gap), by simp, fun after => ?_⟩
      exact .ret (hused.append gap after) (hgap after)
  | expr _ hend ih =>
      obtain ⟨used, rfl, hused⟩ := ih (hend.ne_nil hrest)
      obtain ⟨gap, rfl, hgap⟩ := hend.split
      exact ⟨used ++ gap, by simp, fun after => .expr (hused.append gap after) (hgap after)⟩
  | @closed openText closeText body ws rest _ ih =>
      obtain ⟨used, rfl, hused⟩ := ih (List.cons_ne_nil _ _)
      refine ⟨⟨.lbrace, openText⟩ :: (used ++ [⟨.rbrace, closeText⟩]), by simp, fun after => ?_⟩
      exact .closed (hused.append _ after)
  | unclosed => exact absurd rfl hrest
  | ident => exact ⟨[_], rfl, fun _ => .ident⟩
  | integer hmax => exact ⟨[_], rfl, fun _ => .integer hmax⟩
  | string => exact ⟨[_], rfl, fun _ => .string⟩
  | true => exact ⟨[_], rfl, fun _ => .true⟩
  | false => exact ⟨[_], rfl, fun _ => .false⟩
  | unary hop _ ih =>
      obtain ⟨used, rfl, hused⟩ := ih hrest
      exact ⟨_ :: used, rfl, fun after => .unary hop (hused after)⟩
  | @grouped openText closeText e ws rest _ ih =>
      obtain ⟨used, rfl, hused⟩ := ih (List.cons_ne_nil _ _)
      refine ⟨⟨.lparen, openText⟩ :: (used ++ [⟨.rparen, closeText⟩]), by simp, fun after => ?_⟩
      exact .grouped (hused.append _ after)
  | @conditional ifText openText closeText e body ws mid rest _ _ ih₁ ih₂ =>
      obtain ⟨used₁, rfl, h₁⟩ := ih₁ (List.cons_ne_nil _ _)
      obtain ⟨used₂, rfl, h₂⟩ := ih₂ hrest
      refine ⟨⟨.ifWord, ifText⟩ :: ⟨.lparen, openText⟩ :: (used₁ ++ ⟨.rparen, closeText⟩ :: used₂), by simp,
        fun after => ?_⟩
      exact .conditional (h₁.append _ after) (h₂ after)
  | @alternative ifText openText closeText elseText e body other ws mid next rest _ _ _ ih₁ ih₂ ih₃ =>
      obtain ⟨used₁, rfl, h₁⟩ := ih₁ (List.cons_ne_nil _ _)
      obtain ⟨used₂, rfl, h₂⟩ := ih₂ (List.cons_ne_nil _ _)
      obtain ⟨used₃, rfl, h₃⟩ := ih₃ hrest
      refine ⟨⟨.ifWord, ifText⟩ :: ⟨.lparen, openText⟩ ::
        (used₁ ++ ⟨.rparen, closeText⟩ :: (used₂ ++ ⟨.elseWord, elseText⟩ :: used₃)),
        by simp, fun after => ?_⟩
      exact .alternative (h₁.append _ after) (h₂.append _ after) (h₃ after)
  | constant _ ih =>
      obtain ⟨used, rfl, hused⟩ := ih hrest
      exact ⟨_ :: _ :: _ :: used, rfl, fun after => .constant (hused after)⟩
  | @function fnText openText closeText names body ws mid rest _ _ ih₁ ih₂ =>
      obtain ⟨used₁, rfl, h₁⟩ := ih₁ (List.cons_ne_nil _ _)
      obtain ⟨used₂, rfl, h₂⟩ := ih₂ hrest
      refine ⟨⟨.functionWord, fnText⟩ :: ⟨.lparen, openText⟩ ::
        (used₁ ++ ⟨.rparen, closeText⟩ :: used₂), by simp, fun after => ?_⟩
      exact .function (h₁.append _ after) (h₂ after)
  | emptyArray => exact ⟨[_, _], rfl, fun _ => .emptyArray⟩
  | @array openText closeText es ws rest _ ih =>
      obtain ⟨used, rfl, hused⟩ := ih (List.cons_ne_nil _ _)
      refine ⟨⟨.lbracket, openText⟩ :: (used ++ [⟨.rbracket, closeText⟩]), by simp, fun after => ?_⟩
      exact .array (hused.append _ after)
  | @hash openText closeText ps ws rest _ ih =>
      obtain ⟨used, rfl, hused⟩ := ih (List.cons_ne_nil _ _)
      refine ⟨⟨.lbrace, openText⟩ :: (used ++ [⟨.rbrace, closeText⟩]), by simp, fun after => ?_⟩
      exact .hash (hused.append _ after)
  | @binary op left right ws mid rest _ hop _ ih₁ ih₂ =>
      obtain ⟨used₁, rfl, h₁⟩ := ih₁ (List.cons_ne_nil _ _)
      obtain ⟨used₂, rfl, h₂⟩ := ih₂ hrest
      refine ⟨used₁ ++ op :: used₂, by simp, fun after => ?_⟩
      exact .binary (h₁.append _ after) hop (h₂ after)
  | @emptyCall openText closeText callee ws rest _ ih =>
      obtain ⟨used, rfl, hused⟩ := ih (List.cons_ne_nil _ _)
      refine ⟨used ++ [⟨.lparen, openText⟩, ⟨.rparen, closeText⟩], by simp, fun after => ?_⟩
      exact .emptyCall (hused.append _ after)
  | @call openText closeText callee es ws mid rest _ _ ih₁ ih₂ =>
      obtain ⟨used₁, rfl, h₁⟩ := ih₁ (List.cons_ne_nil _ _)
      obtain ⟨used₂, rfl, h₂⟩ := ih₂ (List.cons_ne_nil _ _)
      refine ⟨used₁ ++ ⟨.lparen, openText⟩ :: (used₂ ++ [⟨.rparen, closeText⟩]), by simp,
        fun after => ?_⟩
      exact .call (h₁.append _ after) (h₂.append _ after)
  | @index openText closeText left subscript ws mid rest _ _ ih₁ ih₂ =>
      obtain ⟨used₁, rfl, h₁⟩ := ih₁ (List.cons_ne_nil _ _)
      obtain ⟨used₂, rfl, h₂⟩ := ih₂ (List.cons_ne_nil _ _)
      refine ⟨used₁ ++ ⟨.lbracket, openText⟩ :: (used₂ ++ [⟨.rbracket, closeText⟩]), by simp,
        fun after => ?_⟩
      exact .index (h₁.append _ after) (h₂.append _ after)
  | lastExpression _ ih =>
      obtain ⟨used, rfl, hused⟩ := ih hrest
      exact ⟨used, rfl, fun after => .lastExpression (hused after)⟩
  | @moreExpressions commaText e es ws mid rest _ _ ih₁ ih₂ =>
      obtain ⟨used₁, rfl, h₁⟩ := ih₁ (List.cons_ne_nil _ _)
      obtain ⟨used₂, rfl, h₂⟩ := ih₂ hrest
      refine ⟨used₁ ++ ⟨.comma, commaText⟩ :: used₂, by simp, fun after => ?_⟩
      exact .moreExpressions (h₁.append _ after) (h₂ after)
  | lastParameter => exact ⟨[_], rfl, fun _ => .lastParameter⟩
  | moreParameters _ ih =>
      obtain ⟨used, rfl, hused⟩ := ih hrest
      exact ⟨_ :: _ :: used, rfl, fun after => .moreParameters (hused after)⟩
  | noPairs => exact ⟨[], rfl, fun _ => .noPairs⟩
  | @lastPair colonText key value ws mid rest _ _ ih₁ ih₂ =>
      obtain ⟨used₁, rfl, h₁⟩ := ih₁ (List.cons_ne_nil _ _)
      obtain ⟨used₂, rfl, h₂⟩ := ih₂ hrest
      refine ⟨used₁ ++ ⟨.colon, colonText⟩ :: used₂, by simp, fun after => ?_⟩
      exact .lastPair (h₁.append _ after) (h₂ after)
  | @morePairs colonText commaText key value ps ws mid next rest _ _ _ ih₁ ih₂ ih₃ =>
      obtain ⟨used₁, rfl, h₁⟩ := ih₁ (List.cons_ne_nil _ _)
      obtain ⟨used₂, rfl, h₂⟩ := ih₂ (List.cons_ne_nil _ _)
      obtain ⟨used₃, rfl, h₃⟩ := ih₃ hrest
      refine ⟨used₁ ++ ⟨.colon, colonText⟩ :: (used₂ ++ ⟨.comma, commaText⟩ :: used₃), by simp,
        fun after => ?_⟩
      exact .morePairs (h₁.append _ after) (h₂.append _ after) (h₃ after)

/-- In a closed derivation every bracket is matched by its own. -/
theorem Closed.unmatched_eq {φ : Phrase} {ws : List Word} (h : Closed φ ws)
    (pending : List TokenKind) : unmatched pending ws = some pending := by
  -- A word that is no bracket comes after, so that something is left.
  have hafter := (h [⟨.semicolon, ";"⟩]).unmatched_eq (List.cons_ne_nil _ _) pending
  rw [unmatched_append] at hafter
  cases hws : unmatched pending ws with
  | none =>
      rw [hws] at hafter
      cases hafter
  | some left =>
      rw [hws] at hafter
      exact hafter

end Closed

end Parser

end Scriptlet
