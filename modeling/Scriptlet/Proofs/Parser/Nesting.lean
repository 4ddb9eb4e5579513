import Scriptlet.Parser.Grammar

/-!
# How deep expressions nest

A parser that may go deeper reads whatever one that may go less deep has read to the end.

**Comparison.**  `Approximates x y`: in every state, `x` stops because expressions are nested too
deeply, or does exactly what `y` does.  Sequencing, branching and loops keep the comparison, and so
does every production in the reader of the expressions inside it.

**Result.**  `programWith_approximates`: a program read with less room for nesting is read as with
more room, or reading it stops for lack of room.
-/

namespace Scriptlet

namespace Parser

open Step

variable {α β σ : Type}

/-- The step stops because of nesting, or does what the other one does. -/
def Approximates (x y : Step α) : Prop :=
  ∀ p : State, x.run p = .error .nestedTooDeeply ∨ x.run p = y.run p

namespace Approximates

theorem refl (x : Step α) : Approximates x x :=
  fun _ => Or.inr rfl

theorem trans {x y z : Step α} (hxy : Approximates x y) (hyz : Approximates y z) :
    Approximates x z := by
  intro p
  rcases hxy p with hstop | hsame
  · exact Or.inl hstop
  · rcases hyz p with hstop | hsame'
    · exact Or.inl (hsame.trans hstop)
    · exact Or.inr (hsame.trans hsame')

theorem bind {x y : Step α} {f g : α → Step β} (hxy : Approximates x y)
    (hfg : ∀ a, Approximates (f a) (g a)) : Approximates (x >>= f) (y >>= g) := by
  intro p
  rcases hxy p with hstop | hsame
  · left
    rw [run_bind, hstop]
  · rw [run_bind, run_bind, hsame]
    cases y.run p with
    | error fault => exact Or.inr rfl
    | ok result => exact hfg result.1 result.2

theorem ite {c : Prop} [Decidable c] {x y x' y' : Step α} (hx : Approximates x x')
    (hy : Approximates y y') :
    Approximates (if c then x else y) (if c then x' else y') := by
  by_cases hc : c
  · rw [if_pos hc, if_pos hc]
    exact hx
  · rw [if_neg hc, if_neg hc]
    exact hy

theorem iterate {round round' : σ → Step (Round σ α)} {shrinks : ∀ s, Shrinks (round s)}
    {shrinks' : ∀ s, Shrinks (round' s)} (h : ∀ s, Approximates (round s) (round' s)) (s : σ) :
    Approximates (iterate round shrinks s) (iterate round' shrinks' s) := by
  intro p
  show iterateRun round shrinks s p = _ ∨ iterateRun round shrinks s p = _
  fun_induction iterateRun round shrinks s p with
  | case1 s p fault hr =>
      rcases h s p with hstop | hsame
      · rw [hr] at hstop
        cases hstop
        exact Or.inl rfl
      · right
        rw [run_iterate, ← hsame, hr]
  | case2 s p a q hr =>
      right
      rcases h s p with hstop | hsame
      · rw [hr] at hstop
        cases hstop
      · rw [run_iterate, ← hsame, hr]
  | case3 s p s' q hr ih =>
      rcases h s p with hstop | hsame
      · rw [hr] at hstop
        cases hstop
      · rw [run_iterate, ← hsame, hr]
        exact ih

end Approximates

open Approximates

section Productions

variable {expression expression' : Reader}
  (h : ∀ level, Approximates (expression level) (expression' level))
include h

theorem letStatement_approximates :
    Approximates (letStatement expression) (letStatement expression') := by
  refine (refl _).bind fun _ => ite ?_ (refl _)
  refine (refl _).bind fun _ => (refl _).bind fun _ => ite ?_ (refl _)
  exact (refl _).bind fun _ => (h _).bind fun _ => refl _

theorem statementWith_approximates :
    Approximates (statementWith expression) (statementWith expression') := by
  refine (refl _).bind fun token => ?_
  split
  · exact letStatement_approximates h
  · exact (refl _).bind fun _ => (h _).bind fun _ => refl _
  · exact (h _).bind fun _ => refl _

theorem statementsUntil_approximates (ends : TokenKind → Bool) :
    Approximates (statementsUntil expression ends) (statementsUntil expression' ends) := by
  apply Approximates.iterate
  intro read
  refine (refl _).bind fun token => ite (refl _) ?_
  exact (statementWith_approximates h).bind fun _ => refl _

theorem blockWith_approximates :
    Approximates (blockWith expression) (blockWith expression') :=
  (refl _).bind fun _ => statementsUntil_approximates h _

theorem programWith_approximates :
    Approximates (programWith expression) (programWith expression') :=
  (statementsUntil_approximates h _).bind fun _ => refl _

theorem expressionListWith_approximates (close : TokenKind) :
    Approximates (expressionListWith expression close) (expressionListWith expression' close) := by
  refine (refl _).bind fun _ => ite (refl _) ?_
  refine (refl _).bind fun _ => (h _).bind fun first => ?_
  cases first with
  | none => exact refl _
  | some e =>
      apply Approximates.iterate
      intro read
      refine (refl _).bind fun _ => ite ?_ (refl _)
      refine (refl _).bind fun _ => (refl _).bind fun _ => (h _).bind fun _ => refl _

theorem conditional_approximates :
    Approximates (conditional expression) (conditional expression') := by
  refine (refl _).bind fun _ => ite ?_ (refl _)
  refine (refl _).bind fun _ => (h _).bind fun condition => ?_
  refine (refl _).bind fun _ => ite ?_ (refl _)
  refine (refl _).bind fun _ => ite ?_ (refl _)
  refine (blockWith_approximates h).bind fun _ => (refl _).bind fun _ => ite ?_ (refl _)
  refine (refl _).bind fun _ => (refl _).bind fun _ => ite ?_ (refl _)
  exact (blockWith_approximates h).bind fun _ => refl _

theorem functionLiteral_approximates :
    Approximates (functionLiteral expression) (functionLiteral expression') := by
  refine (refl _).bind fun _ => ite ?_ (refl _)
  refine (refl _).bind fun names => ?_
  cases names with
  | none => exact refl _
  | some names =>
      refine (refl _).bind fun _ => ite ?_ (refl _)
      exact (blockWith_approximates h).bind fun _ => refl _

theorem hashLiteral_approximates :
    Approximates (hashLiteral expression) (hashLiteral expression') := by
  apply Approximates.iterate
  intro read
  refine (refl _).bind fun _ => ite (refl _) ?_
  refine (refl _).bind fun _ => (h _).bind fun key => ?_
  refine (refl _).bind fun _ => ite ?_ (refl _)
  exact (refl _).bind fun _ => (h _).bind fun value => refl _

theorem operand_approximates : Approximates (operand expression) (operand expression') := by
  refine (refl _).bind fun token => ?_
  split
  · exact refl _
  · exact refl _
  · exact refl _
  · exact refl _
  · exact refl _
  · exact (refl _).bind fun _ => (refl _).bind fun _ => (h _).bind fun _ => refl _
  · exact (refl _).bind fun _ => (refl _).bind fun _ => (h _).bind fun _ => refl _
  · exact (refl _).bind fun _ => (h _).bind fun _ => refl _
  · exact conditional_approximates h
  · exact functionLiteral_approximates h
  · exact (expressionListWith_approximates h _).bind fun _ => refl _
  · exact hashLiteral_approximates h
  · exact refl _

theorem suffix_approximates (left : Expr) (way : Suffix) :
    Approximates (suffix expression left way) (suffix expression' left way) := by
  cases way with
  | operator => exact (refl _).bind fun _ => (refl _).bind fun _ => (h _).bind fun _ => refl _
  | call => exact (expressionListWith_approximates h _).bind fun _ => refl _
  | index => exact (refl _).bind fun _ => (h _).bind fun _ => refl _

theorem expressionWith_approximates (level : Precedence) :
    Approximates (expressionWith expression level) (expressionWith expression' level) := by
  refine (operand_approximates h).bind fun first => ?_
  cases first with
  | none => exact refl _
  | some left =>
      apply Approximates.iterate
      intro left
      refine (refl _).bind fun kind => ite ?_ (refl _)
      cases kind.suffix? with
      | none => exact refl _
      | some way =>
          exact (refl _).bind fun _ => (suffix_approximates h left way).bind fun _ => refl _

end Productions

theorem expressionWithin_approximates_succ (depth : Nat) (level : Precedence) :
    Approximates (expressionWithin depth level) (expressionWithin (depth + 1) level) := by
  induction depth generalizing level with
  | zero => exact fun _ => Or.inl rfl
  | succ depth ih => exact expressionWith_approximates ih level

theorem expressionWithin_approximates {depth depth' : Nat} (hle : depth ≤ depth')
    (level : Precedence) :
    Approximates (expressionWithin depth level) (expressionWithin depth' level) := by
  induction hle with
  | refl => exact Approximates.refl _
  | step _ ih => exact ih.trans (expressionWithin_approximates_succ _ level)

end Parser

end Scriptlet
