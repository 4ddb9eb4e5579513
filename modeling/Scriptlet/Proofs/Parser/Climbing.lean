import Scriptlet.Proofs.Parser.RoundTrip
import Scriptlet.Proofs.Program.Chains

/-!
# Precedence climbing

A chain of operators is read as its tree.

**Parts.**  `Resumes n e ws`: reading the words comes to the same as looking for what continues the
expression, unless a call or an index follows.  These would go to the operand of an operator in front,
and not to what the operator makes of it.

**Trees.**  `Spans n e ws`: the words are those of the operands of the tree, with its operators between
them.

**The invariant of the loop.**  `Spans.takes`: at a level below the operator at the root of an ordered
tree, and in front of a word that binds no more tightly than that operator, reading the words of the
tree comes to the same as looking for what continues it.  The left operand is what the loop has read
when it comes to the operator; the right operand is read at the level of the operator, so that an
operator of the same level ends it.

**Nesting.**  A right operand is one level deeper, but binds more tightly: an ordered tree needs no more
than four levels beyond those of its operands, however many it has.

**Result.**  `parse_of_chain`.
-/

namespace Scriptlet

namespace Parser

open Step

section Operators

theorem rank_of_binaryOperator {op : String} (h : op ∈ binaryOperators) :
    (wordOf op).kind.precedence.rank = tightness op + 1 ∧ 1 ≤ tightness op ∧ tightness op ≤ 4 := by
  have hall : ∀ op ∈ binaryOperators,
      (wordOf op).kind.precedence.rank = tightness op + 1 ∧
        1 ≤ tightness op ∧ tightness op ≤ 4 := by decide
  exact hall op h

/-- An operator of the language is kept as it is spelled. -/
theorem takes_operation {expression : Reader} {left right : Expr} {op : String}
    {ws rest : List Word} (hop : op ∈ binaryOperators)
    (hright : Takes (expression (wordOf op).kind.precedence) ws (some right) rest) :
    Takes (suffix expression left .operator) (wordOf op :: ws) (some (.binary left op right))
      rest := by
  have hoperation : Takes (suffix expression left .operator) (wordOf op :: ws)
      (some (.binary left (wordOf op).text right)) rest := takes_operator hright
  rwa [(kind_of_binaryOperator hop).1] at hoperation

end Operators

section Parts

variable {n : Nat} {e : Expr} {ws : List Word}

/-- Where neither a call nor an index follows, reading the words comes to the same as looking for what
continues the expression. -/
structure Resumes (n : Nat) (e : Expr) (ws : List Word) : Prop where
  opens : Opens ws
  continues : ∀ (level : Precedence) (rest after : List Word) (result : Option Expr),
    level.rank < Precedence.call.rank →
    (kindAhead rest).precedence.rank < Precedence.call.rank →
    kindAhead rest ≠ .elseWord →
    (∀ last, Takes (iterate (suffixRound (expressionWithin n) level)
      (suffixRound_shrinks (expressionWithin n) level) e) (last :: rest) result after) →
    Takes (expressionWithin (n + 1) level) (ws ++ rest) result after

theorem Understood.resumes (h : Understood n (.expression e) ws) : Resumes n e ws :=
  ⟨h.1, fun level rest after result hlevel _ => h.2 level rest after result hlevel⟩

/-- The operator in front takes what the words are read as, and then anything may continue it. -/
theorem Resumes.unary {op : Word} (hop : op.kind = .bang ∨ op.kind = .minus) (h : Resumes n e ws) :
    Resumes (n + 1) (.unary op.text e) (op :: ws) := by
  refine ⟨?_, ?_⟩
  · show startsExpression op.kind = true
    rcases hop with hop | hop
    · rw [hop]
      rfl
    · rw [hop]
      rfl
  · intro level rest after result _ hrest helse hrounds
    have hoperand : Takes (expressionWithin (n + 1) .unary) (ws ++ rest) (some e) rest := by
      refine h.2 .unary rest rest (some e) (by decide) hrest helse ?_
      intro last
      apply takes_suffixRounds_stop
      exact Nat.not_lt.mpr (Nat.le_of_lt_succ hrest)
    exact takes_expressionWith (takes_unary hop hoperand) hrounds

end Parts

section Trees

variable {n : Nat} {e : Expr} {ws : List Word}

/-- The words are those of the operands, with the operators between them. -/
inductive Spans (n : Nat) : Expr → List Word → Prop
  | operand {e : Expr} {ws : List Word} :
      e.IsOperand →
      (∀ m, n ≤ m → Resumes m e ws) →
      Spans n e ws
  | binary {left right : Expr} {op : String} {lefts rights : List Word} :
      op ∈ binaryOperators →
      Spans n left lefts →
      Spans n right rights →
      Spans n (.binary left op right) (lefts ++ wordOf op :: rights)

theorem Spans.opens (h : Spans n e ws) : Opens ws := by
  induction h with
  | operand _ hresumes => exact (hresumes n (Nat.le_refl n)).1
  | binary _ _ _ ihleft _ => exact ihleft.append _

/-- Putting an operand in front of the tree puts its words in front of those of the tree. -/
theorem Spans.prepend {first : Expr} {firsts : List Word} {op : String} (h : Spans n e ws)
    (hop : op ∈ binaryOperators) (hfirst : Spans n first firsts) :
    Spans n (Expr.prepend first op e) (firsts ++ wordOf op :: ws) := by
  induction h with
  | operand hoperand hresumes =>
      rw [hoperand.prepend]
      exact .binary hop hfirst (.operand hoperand hresumes)
  | @binary left right op' lefts rights hop' hleft hright ihleft _ =>
      rw [Expr.prepend]
      split
      · exact .binary hop hfirst (.binary hop' hleft hright)
      · have hwhole := Spans.binary hop' ihleft hright
        rw [List.append_assoc, List.cons_append] at hwhole
        exact hwhole

/-- The invariant of the loop.  The induction is on the tree: the left operand is read at the same
level and the right one at that of the operator, where one level of nesting less is enough. -/
theorem Spans.takes (h : Spans n e ws) (he : e.Ordered) {m : Nat} {level : Precedence}
    {rest after : List Word} {result : Option Expr}
    (hlow : level.rank ≤ Precedence.product.rank) (hlevel : e.Root (level.rank ≤ tightness ·))
    (hroom : n + Precedence.product.rank ≤ m + level.rank)
    (hrest : e.Root ((kindAhead rest).precedence.rank ≤ tightness · + 1))
    (hsuffix : (kindAhead rest).precedence.rank < Precedence.call.rank)
    (helse : kindAhead rest ≠ .elseWord)
    (hrounds : ∀ last, Takes (iterate (suffixRound (expressionWithin m) level)
      (suffixRound_shrinks (expressionWithin m) level) e) (last :: rest) result after) :
    Takes (expressionWithin (m + 1) level) (ws ++ rest) result after := by
  induction h generalizing m level rest after result with
  | operand _ hresumes =>
      have hcall : level.rank < Precedence.call.rank := Nat.lt_of_le_of_lt hlow (by decide)
      exact (hresumes m (by omega)).2 level rest after result hcall hsuffix helse hrounds
  | @binary left right op lefts rights hop hleft hright ihleft ihright =>
      obtain ⟨hlefts, hrights, hrootleft, hrootright⟩ := he
      obtain ⟨hrank, -, htight⟩ := rank_of_binaryOperator hop
      obtain ⟨hway, -, hcall, hne⟩ := binaryOperator_continues (kind_of_binaryOperator hop).2
      have hproduct : Precedence.product.rank = 5 := rfl
      have hlevel : level.rank ≤ tightness op := hlevel
      have hrest : (kindAhead rest).precedence.rank ≤ tightness op + 1 := hrest
      rw [List.append_assoc, List.cons_append]
      refine ihleft hlefts hlow ?_ hroom ?_ hcall hne ?_
      · exact hrootleft.mono fun op' hle => Nat.le_trans hlevel hle
      · refine hrootleft.mono fun op' hle => ?_
        rw [kindAhead_cons, hrank]
        exact Nat.succ_le_succ hle
      intro last
      -- The right operand ends in front of what does not bind more tightly than the operator.
      obtain ⟨k, rfl⟩ : ∃ k, m = k + 1 := ⟨m - 1, by omega⟩
      have hoperand : Takes (expressionWithin (k + 1) (wordOf op).kind.precedence)
          (rights ++ rest) (some right) rest := by
        refine ihright hrights (by omega) ?_ (by omega) ?_ hsuffix helse ?_
        · exact hrootright.mono fun op' hlt => by omega
        · exact hrootright.mono fun op' hlt => by omega
        · intro last'
          apply takes_suffixRounds_stop
          omega
      have hgoes : level.rank < (kindAhead (wordOf op :: (rights ++ rest))).precedence.rank := by
        rw [kindAhead_cons]
        omega
      exact takes_suffixRounds hway hgoes (takes_operation hop hoperand) hrounds

theorem Spans.root {P : String → Prop} (h : Spans n e ws) (hP : ∀ op ∈ binaryOperators, P op) :
    e.Root P := by
  cases h with
  | operand hoperand _ => exact hoperand.root
  | binary hop _ _ => exact hP _ hop

/-- An ordered tree is read as a whole if there is room for its operators. -/
theorem Spans.whole (h : Spans n e ws) (he : e.Ordered) : Whole (n + 4) e ws := by
  refine ⟨h.opens, ?_⟩
  intro rest hstop helse
  have hlowest : (kindAhead rest).precedence.rank = 1 := by
    rw [hstop]
    rfl
  refine h.takes he (by decide) ?_ (Nat.le_refl _) ?_ ?_ helse ?_
  · exact h.root fun op hop => (rank_of_binaryOperator hop).2.1
  · refine h.root fun op hop => ?_
    omega
  · rw [hlowest]
    decide
  · intro last
    apply takes_suffixRounds_stop
    rw [hstop]
    decide

end Trees

section Chains

/-- A chain needs room for its operators beyond that for its parts. -/
theorem whole_of_spans {c : Chain} {n : Nat} {ws : List Word}
    (h : ∀ n, c.nesting ≤ n + 4 → Spans n c.tree ws) (hn : c.nesting ≤ n) : Whole n c.tree ws := by
  have hfour := c.four_le_nesting
  obtain ⟨k, rfl⟩ : ∃ k, n = k + 4 := ⟨n - 4, by omega⟩
  exact (h k hn).whole c.ordered_tree

mutual

theorem understood_stem : (s : Stem) → ∀ n, s.nesting ≤ n →
    Understood n (.expression s.tree) (s.lexemes.map wordOf)
  | .atom a, n, _ => understood_of_writes (a.writes n) a.wellFormed_tree
  | .call callee arguments, n, hn => by
      rw [Stem.nesting] at hn
      obtain ⟨m, rfl⟩ : ∃ m, n = m + 1 := ⟨n - 1, by omega⟩
      rw [Stem.lexemes, parenthesized, List.map_append, List.map_cons, List.map_append]
      exact understood_call (understood_stem callee (m + 1) (by omega))
        (understood_chains arguments m (by omega))
  | .index left subscript, n, hn => by
      rw [Stem.nesting] at hn
      obtain ⟨m, rfl⟩ : ∃ m, n = m + 1 := ⟨n - 1, by omega⟩
      rw [Stem.lexemes, bracketed, List.map_append, List.map_cons, List.map_append]
      exact understood_index (understood_stem left (m + 1) (by omega))
        (whole_of_spans (spans_chain subscript) (by omega))

theorem resumes_part : (part : Part) → ∀ n, part.nesting ≤ n →
    Resumes n part.tree (part.lexemes.map wordOf)
  | .stem s, n, hn => (understood_stem s n hn).resumes
  | .unary op hop operand, n, hn => by
      rw [Part.nesting] at hn
      obtain ⟨m, rfl⟩ : ∃ m, n = m + 1 := ⟨n - 1, by omega⟩
      obtain ⟨htext, hkind⟩ := kind_of_unaryOperator hop
      have hunary := (resumes_part operand m (by omega)).unary hkind
      rw [htext] at hunary
      exact hunary

/-- The words of a chain are spread over its tree. -/
theorem spans_chain : (c : Chain) → ∀ n, c.nesting ≤ n + 4 →
    Spans n c.tree (c.lexemes.map wordOf)
  | .last part, n, hn => by
      rw [Chain.nesting] at hn
      exact .operand part.isOperand_tree fun m hm => resumes_part part m (by omega)
  | .more part op hop rest, n, hn => by
      rw [Chain.nesting] at hn
      have hfirst : Spans n part.tree (part.lexemes.map wordOf) :=
        .operand part.isOperand_tree fun m hm => resumes_part part m (by omega)
      rw [Chain.lexemes, List.map_append, List.map_cons]
      exact (spans_chain rest n (by omega)).prepend hop hfirst

theorem understood_chains : (cs : List Chain) → ∀ n, Chain.nestingAll cs ≤ n →
    Understood n (.expressions (Chain.trees cs)) ((Chain.lexemesAll cs).map wordOf)
  | [], n, _ => understood_noExpressions
  | [c], n, hn => by
      rw [Chain.nestingAll] at hn
      exact understood_lastExpression (whole_of_spans (spans_chain c) (by omega))
  | c :: next :: rest, n, hn => by
      rw [Chain.nestingAll] at hn
      rw [Chain.lexemesAll, List.map_append, List.map_cons]
      exact understood_moreExpressions (whole_of_spans (spans_chain c) (by omega))
        (understood_chains (next :: rest) n (by omega))

end

/-- A chain, however it is laid out, is read as one expression on its own, without errors: the only tree
that the chain describes.  Only nesting that is too deep can keep it from being read. -/
theorem parse_of_chain (c : Chain) {source : String}
    (hwords : (Scanner.ofString source).words = c.lexemes.map wordOf) :
    ∃ e, (∀ e', c.Describes e' ↔ e' = e) ∧
      (parse source = .ok ⟨⟨[.expr e]⟩, []⟩ ∨ parse source = .error .nestedTooDeeply) ∧
      (c.nesting < maxNesting → parse source = .ok ⟨⟨[.expr e]⟩, []⟩) := by
  have hwhole : Whole c.nesting c.tree (c.lexemes.map wordOf) :=
    whole_of_spans (spans_chain c) (Nat.le_refl _)
  have hreads : Reads (programWith (expressionWithin (c.nesting + 1)))
      (Scanner.ofString source).words ⟨[.expr c.tree]⟩ [] := by
    rw [hwords]
    exact (understood_lastStatement hwhole).reads
  exact ⟨c.tree, c.describes_iff, parse_of_reads_within hreads⟩

/-- All four levels, with a call and an index behind an operator in front, two operators in front of
one operand, and a chain for an argument. -/
theorem parse_of_chain_levels :
    let x : Part := .stem (.atom (.ident "x" rfl))
    let zero : Part := .stem (.atom (.integer 0 "00" (by decide) (by decide)))
    let called : Stem := .index (.call (.atom (.ident "f" rfl))
      [.last x, .more zero "-" (by decide) (.more x "-" (by decide) (.last zero))]) (.last zero)
    let text : Part := .stem (.atom (.string "s" (by decide)))
    let negated : Part := .unary "!" (by decide) (.unary "-" (by decide) (.stem (.atom (.boolean true))))
    let c : Chain := .more x "+" (by decide) (.more (.unary "-" (by decide) (.stem called)) "*" (by decide)
      (.more x "==" (by decide) (.more negated "<" (by decide) (.last text))))
    let source := "x+-f(x,00-x-00)[00]*x==!-true<\"s\""
    let e : Expr :=
      .binary
        (.binary (.ident "x") "+"
          (.binary
            (.unary "-" (.index (.call (.ident "f") [.ident "x",
              .binary (.binary (.integer 0) "-" (.ident "x")) "-" (.integer 0)]) (.integer 0)))
            "*" (.ident "x")))
        "==" (.binary (.unary "!" (.unary "-" (.boolean true))) "<" (.string "s"))
    (Scanner.ofString source).words = c.lexemes.map wordOf ∧ (∀ e', c.Describes e' ↔ e' = e) ∧
      parse source = .ok ⟨⟨[.expr e]⟩, []⟩ := by
  intro x zero called text negated c source e
  have hwords : (Scanner.ofString source).words = c.lexemes.map wordOf := by decide +kernel
  have htree : c.tree = e := by decide +kernel
  obtain ⟨e', hdescribes, -, hparse⟩ := parse_of_chain c hwords
  have he : e' = e := by rw [← htree, ← (hdescribes c.tree).mp ((c.describes_iff _).mpr rfl)]
  rw [he] at hdescribes hparse
  exact ⟨hwords, hdescribes, hparse (by decide +kernel)⟩

end Chains

end Parser

end Scriptlet
