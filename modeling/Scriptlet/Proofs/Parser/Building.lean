import Scriptlet.Parser.Grammar

/-!
# What steps are built from

Every production is put together from the same few primitive steps.  What holds of these, and is kept by
sequencing, branching and loops, holds of all productions.

**Primitive steps.**  A step looks at the kind of the token ahead, moves on, records an error or stops
for good.  It may also look at the current token, but what it does then depends on the token's word
alone: nothing is read off the position of a token.

**Results.**  `built_expressionWithin` and `built_program`: the parser is built from primitive steps, at
every depth of nesting.
-/

namespace Scriptlet

namespace Parser

open Step

/-- Steps that are built from primitive ones. -/
inductive Built : {α : Type} → Step α → Prop
  | pure {α : Type} (a : α) : Built (pure a : Step α)
  | bind {α β : Type} {x : Step α} {f : α → Step β} :
      Built x → (∀ a, Built (f a)) → Built (x >>= f)
  | current {β : Type} {f : Token → Step β} :
      (∀ t, f t = f ⟨t.kind, t.text, .start⟩) → (∀ t, Built (f t)) → Built (Step.current >>= f)
  | peekKind : Built peekKind
  | advance : Built advance
  | report (e : SyntaxError) : Built (report e)
  | halt {α : Type} (fault : Fault) : Built (halt fault : Step α)
  | iterate {σ α : Type} {round : σ → Step (Round σ α)} {shrinks : ∀ s, Shrinks (round s)} :
      (∀ s, Built (round s)) → (s : σ) → Built (iterate round shrinks s)

theorem Built.ite {α : Type} {c : Prop} [Decidable c] {x y : Step α} (hx : Built x) (hy : Built y) :
    Built (if c then x else y) := by
  by_cases hc : c
  · rw [if_pos hc]
    exact hx
  · rw [if_neg hc]
    exact hy

theorem Built.map {α β : Type} {x : Step α} (h : Built x) (f : α → β) : Built (f <$> x) :=
  h.bind fun _ => .pure _

theorem built_expectPeek (wanted : TokenKind) : Built (expectPeek wanted) := by
  refine Built.peekKind.bind fun found => .ite ?_ ?_
  · exact Built.advance.bind fun _ => .pure true
  · exact (Built.report _).bind fun _ => .pure false

theorem built_skipSemicolon : Built skipSemicolon :=
  Built.peekKind.bind fun _ => .ite Built.advance (.pure ())

section Parameters

theorem built_parameterRound (read : List String) : Built (parameterRound read) := by
  refine Built.peekKind.bind fun _ => .ite ?_ ?_
  · refine Built.advance.bind fun _ => (built_expectPeek _).bind fun _ => .ite ?_ (.pure _)
    exact .current (fun _ => rfl) fun _ => .pure _
  · exact (built_expectPeek _).bind fun _ => .ite (.pure _) (.pure _)

theorem built_parameters : Built parameters := by
  refine Built.peekKind.bind fun _ => .ite ?_ ?_
  · exact Built.advance.bind fun _ => .pure _
  · refine (built_expectPeek _).bind fun _ => .ite ?_ (.pure _)
    exact .current (fun _ => rfl) fun _ => .iterate built_parameterRound _

end Parameters

theorem built_integerLiteral (numeral : String) : Built (integerLiteral numeral) := by
  refine .ite (.halt _) (.ite ?_ (.pure _))
  exact (Built.report _).bind fun _ => .pure _

section Productions

variable {expression : Reader} (h : ∀ level, Built (expression level))
include h

theorem built_letStatement : Built (letStatement expression) := by
  refine (built_expectPeek _).bind fun _ => .ite ?_ (.pure _)
  refine .current (fun _ => rfl) fun name => ?_
  refine (built_expectPeek _).bind fun _ => .ite ?_ (.pure _)
  refine Built.advance.bind fun _ => (h _).bind fun _ => ?_
  exact built_skipSemicolon.bind fun _ => .pure _

theorem built_returnStatement : Built (returnStatement expression) := by
  refine Built.advance.bind fun _ => (h _).bind fun _ => ?_
  exact built_skipSemicolon.bind fun _ => .pure _

theorem built_expressionStatement : Built (expressionStatement expression) :=
  (h _).bind fun _ => built_skipSemicolon.bind fun _ => .pure _

theorem built_statementWith : Built (statementWith expression) := by
  refine .current (fun _ => rfl) fun token => ?_
  split
  · exact built_letStatement h
  · exact built_returnStatement h
  · exact built_expressionStatement h

theorem built_statementRound (ends : TokenKind → Bool) (read : Block) :
    Built (statementRound expression ends read) := by
  refine .current (fun _ => rfl) fun token => .ite (.pure _) ?_
  exact (built_statementWith h).bind fun _ => Built.advance.bind fun _ => .pure _

theorem built_statementsUntil (ends : TokenKind → Bool) :
    Built (statementsUntil expression ends) :=
  .iterate (built_statementRound h ends) []

theorem built_blockWith : Built (blockWith expression) :=
  Built.advance.bind fun _ => built_statementsUntil h _

theorem built_programWith : Built (programWith expression) :=
  (built_statementsUntil h _).bind fun _ => .pure _

theorem built_expressionRound (close : TokenKind) (read : List Expr) :
    Built (expressionRound expression close read) := by
  refine Built.peekKind.bind fun _ => .ite ?_ ?_
  · refine Built.advance.bind fun _ => Built.advance.bind fun _ => (h _).bind fun e => ?_
    cases e with
    | none => exact .pure _
    | some e => exact .pure _
  · exact (built_expectPeek _).bind fun _ => .ite (.pure _) (.pure _)

theorem built_expressionListWith (close : TokenKind) :
    Built (expressionListWith expression close) := by
  refine Built.peekKind.bind fun _ => .ite ?_ ?_
  · exact Built.advance.bind fun _ => .pure _
  · refine Built.advance.bind fun _ => (h _).bind fun e => ?_
    cases e with
    | none => exact .pure _
    | some e => exact .iterate (built_expressionRound h close) [e]

theorem built_unary : Built (unary expression) := by
  refine .current (fun _ => rfl) fun _ => ?_
  exact Built.advance.bind fun _ => (h _).bind fun _ => .pure _

theorem built_grouped : Built (grouped expression) := by
  refine Built.advance.bind fun _ => (h _).bind fun _ => ?_
  exact (built_expectPeek _).bind fun _ => .ite (.pure _) (.pure _)

theorem built_branches (condition : Option Expr) : Built (branches expression condition) := by
  refine (built_blockWith h).bind fun _ => Built.peekKind.bind fun _ => .ite ?_ (.pure _)
  refine Built.advance.bind fun _ => (built_expectPeek _).bind fun _ => .ite ?_ (.pure _)
  exact (built_blockWith h).bind fun _ => .pure _

theorem built_conditional : Built (conditional expression) := by
  refine (built_expectPeek _).bind fun _ => .ite ?_ (.pure _)
  refine Built.advance.bind fun _ => (h _).bind fun condition => ?_
  refine (built_expectPeek _).bind fun _ => .ite ?_ (.pure _)
  exact (built_expectPeek _).bind fun _ => .ite (built_branches h condition) (.pure _)

theorem built_functionLiteral : Built (functionLiteral expression) := by
  refine (built_expectPeek _).bind fun _ => .ite ?_ (.pure _)
  refine built_parameters.bind fun names => ?_
  cases names with
  | none => exact .pure _
  | some names =>
      refine (built_expectPeek _).bind fun _ => .ite ?_ (.pure _)
      exact (built_blockWith h).bind fun _ => .pure _

theorem built_pairRound (read : List (Expr × Expr)) : Built (pairRound expression read) := by
  refine Built.peekKind.bind fun _ => .ite ?_ ?_
  · exact Built.advance.bind fun _ => .pure _
  · refine Built.advance.bind fun _ => (h _).bind fun key => ?_
    refine (built_expectPeek _).bind fun _ => .ite ?_ (.pure _)
    refine Built.advance.bind fun _ => (h _).bind fun value => ?_
    split
    · refine Built.peekKind.bind fun _ => .ite (.pure _) ?_
      exact (built_expectPeek _).bind fun _ => .ite (.pure _) (.pure _)
    · exact .pure _

theorem built_operand : Built (operand expression) := by
  refine .current (fun _ => rfl) fun token => ?_
  split
  · exact .pure _
  · exact built_integerLiteral _
  · exact .pure _
  · exact .pure _
  · exact .pure _
  · exact built_unary h
  · exact built_unary h
  · exact built_grouped h
  · exact built_conditional h
  · exact built_functionLiteral h
  · exact (built_expressionListWith h _).bind fun _ => .pure _
  · exact .iterate (built_pairRound h) []
  · exact (Built.report _).bind fun _ => .pure _

theorem built_suffix (left : Expr) (way : Suffix) : Built (suffix expression left way) := by
  cases way with
  | operator =>
      refine .current (fun _ => rfl) fun op => ?_
      exact Built.advance.bind fun _ => (h _).bind fun _ => .pure _
  | call => exact (built_expressionListWith h _).bind fun _ => .pure _
  | index =>
      refine Built.advance.bind fun _ => (h _).bind fun _ => ?_
      exact (built_expectPeek _).bind fun _ => .ite (.pure _) (.pure _)

theorem built_suffixRound (level : Precedence) (left : Expr) :
    Built (suffixRound expression level left) := by
  refine Built.peekKind.bind fun kind => .ite ?_ (.pure _)
  cases kind.suffix? with
  | none => exact .pure _
  | some way =>
      refine Built.advance.bind fun _ => (built_suffix h left way).bind fun e => ?_
      cases e with
      | none => exact .pure _
      | some e => exact .pure _

theorem built_expressionWith (level : Precedence) : Built (expressionWith expression level) := by
  refine (built_operand h).bind fun first => ?_
  cases first with
  | none => exact .pure _
  | some left => exact .iterate (built_suffixRound h level) left

end Productions

theorem built_expressionWithin (depth : Nat) (level : Precedence) :
    Built (expressionWithin depth level) := by
  induction depth generalizing level with
  | zero => exact .halt _
  | succ depth ih => exact built_expressionWith ih level
theorem built_program : Built program :=
  built_programWith (built_expressionWithin maxNesting)

end Parser

end Scriptlet
