import Scriptlet.Proofs.Evaluation.History

/-!
# Comparing evaluations

Two evaluations of one phrase, in two meanings of calls, are compared construct by construct.

**Compositional comparisons.**  A comparison is compositional if it holds of what evaluations are made
of, and of two sequences when it holds of their parts.

**Result.**  `Node.related`: if calls compare, so do all phrases.
-/

namespace Scriptlet

/-- A comparison that holds of the steps of an evaluation with themselves, and that sequencing keeps.  A
name is looked up and its value noted in one step. -/
structure Compositional (R : {α : Type} → Recorded α → Recorded α → Prop) : Prop where
  pure {α : Type} (a : α) : R (pure a) (pure a)
  bind {α β : Type} {x y : Recorded α} {f g : α → Recorded β} (hxy : R x y)
    (hfg : ∀ a, R (f a) (g a)) : R (x >>= f) (y >>= g)
  happen (event : Event) : R (Recorded.happen event) (Recorded.happen event)
  newSerial : R Recorded.newSerial Recorded.newSerial
  enter (f : Closure) (arguments : List Value) :
    R (Recorded.enter f arguments) (Recorded.enter f arguments)
  ident (scope : ScopeId) (text : String) :
    R (Recorded.noting (.yielded scope (.ident text)) (Recorded.name scope text))
      (Recorded.noting (.yielded scope (.ident text)) (Recorded.name scope text))

variable {R : {α : Type} → Recorded α → Recorded α → Prop}

namespace Compositional

theorem noting (hR : Compositional R) {x y : Recorded Value} (hxy : R x y) (event : Value → Event) :
    R (Recorded.noting event x) (Recorded.noting event y) :=
  hR.bind hxy fun v => hR.bind (hR.happen (event v)) fun _ => hR.pure v

theorem unlessError (hR : Compositional R) {x y : Recorded Value} {f g : Value → Recorded Value}
    (hxy : R x y) (hfg : ∀ a, R (f a) (g a)) :
    R (Recorded.unlessError x f) (Recorded.unlessError y g) := by
  refine hR.bind hxy fun v => ?_
  by_cases hv : v.isError = true
  · rw [if_pos hv, if_pos hv]
    exact hR.pure v
  · rw [if_neg hv, if_neg hv]
    exact hfg v

end Compositional

section Phrases

variable {call call' : RecordedCaller}

mutual

theorem Expr.related (hR : Compositional R)
    (hcall : ∀ f arguments, R (call f arguments) (call' f arguments)) (scope : ScopeId) :
    (e : Expr) → R (e.record call scope) (e.record call' scope)
  | .ident text => hR.ident scope text
  | .integer value => hR.noting (hR.pure _) _
  | .boolean value => hR.noting (hR.pure _) _
  | .string value => hR.noting (hR.pure _) _
  | .unary op right => by
      refine hR.noting ?_ _
      exact hR.unlessError (right.related hR hcall scope) fun v => hR.pure _
  | .binary left op right => by
      refine hR.noting ?_ _
      refine hR.unlessError (left.related hR hcall scope) fun a => ?_
      exact hR.unlessError (right.related hR hcall scope) fun b => hR.pure _
  | .conditional condition consequence none => by
      refine hR.noting ?_ _
      refine hR.unlessError (condition.related hR hcall scope) fun v => ?_
      by_cases hv : v.truthy = true
      · rw [if_pos hv, if_pos hv]
        exact hR.noting (Stmt.relatedAll hR hcall scope consequence .null) _
      · rw [if_neg hv, if_neg hv]
        exact hR.pure _
  | .conditional condition consequence (some block) => by
      refine hR.noting ?_ _
      refine hR.unlessError (condition.related hR hcall scope) fun v => ?_
      by_cases hv : v.truthy = true
      · rw [if_pos hv, if_pos hv]
        exact hR.noting (Stmt.relatedAll hR hcall scope consequence .null) _
      · rw [if_neg hv, if_neg hv]
        exact hR.noting (Stmt.relatedAll hR hcall scope block .null) _
  | .function parameters body => by
      refine hR.noting ?_ _
      exact hR.bind hR.newSerial fun serial => hR.pure _
  | .call callee arguments => by
      refine hR.noting ?_ _
      refine hR.unlessError (callee.related hR hcall scope) fun f => ?_
      refine hR.bind (Expr.relatedAll hR hcall scope arguments) fun result => ?_
      cases result with
      | error e => exact hR.pure e
      | ok vs => exact hR.bind (hR.happen _) fun _ => hR.noting (hcall f vs) _
  | .array elements => by
      refine hR.noting ?_ _
      refine hR.bind (Expr.relatedAll hR hcall scope elements) fun result => ?_
      cases result with
      | error e => exact hR.pure e
      | ok vs => exact hR.pure _
  | .index left subscript => by
      refine hR.noting ?_ _
      refine hR.unlessError (left.related hR hcall scope) fun a => ?_
      exact hR.unlessError (subscript.related hR hcall scope) fun b => hR.pure _
  | .hash pairs => hR.noting (hR.pure _) _
  | .foreign typeName => hR.noting (hR.pure _) _

theorem Expr.relatedAll (hR : Compositional R)
    (hcall : ∀ f arguments, R (call f arguments) (call' f arguments)) (scope : ScopeId) :
    (es : List Expr) → R (Expr.recordAll call scope es) (Expr.recordAll call' scope es)
  | [] => hR.pure _
  | e :: rest => by
      refine hR.bind (e.related hR hcall scope) fun v => ?_
      by_cases hv : v.isError = true
      · rw [if_pos hv, if_pos hv]
        exact hR.pure _
      · rw [if_neg hv, if_neg hv]
        refine hR.bind (Expr.relatedAll hR hcall scope rest) fun result => ?_
        cases result with
        | error e => exact hR.pure _
        | ok vs => exact hR.pure _

theorem Stmt.related (hR : Compositional R)
    (hcall : ∀ f arguments, R (call f arguments) (call' f arguments)) (scope : ScopeId) :
    (s : Stmt) → R (s.record call scope) (s.record call' scope)
  | .bind text value => by
      refine hR.unlessError (value.related hR hcall scope) fun v => ?_
      exact hR.bind (hR.happen _) fun _ => hR.pure v
  | .ret value => by
      refine hR.unlessError (value.related hR hcall scope) fun v => ?_
      exact hR.bind hR.newSerial fun serial => hR.pure _
  | .expr expression => expression.related hR hcall scope
  | .block body => hR.noting (Stmt.relatedAll hR hcall scope body .null) _

theorem Stmt.relatedAll (hR : Compositional R)
    (hcall : ∀ f arguments, R (call f arguments) (call' f arguments)) (scope : ScopeId) :
    (body : List Stmt) → (last : Value) →
      R (Stmt.recordAll call scope last body) (Stmt.recordAll call' scope last body)
  | [], last => hR.pure last
  | s :: rest, last => by
      refine hR.bind (s.related hR hcall scope) fun v => ?_
      by_cases hv : v.stops = true
      · rw [if_pos hv, if_pos hv]
        exact hR.pure v
      · rw [if_neg hv, if_neg hv]
        exact Stmt.relatedAll hR hcall scope rest v

end

theorem Node.related (hR : Compositional R)
    (hcall : ∀ f arguments, R (call f arguments) (call' f arguments)) (scope : ScopeId) (n : Node) :
    R (n.record call scope) (n.record call' scope) := by
  cases n with
  | program p =>
      exact hR.bind (Stmt.relatedAll hR hcall scope p.statements .null) fun v => hR.pure _
  | statement s => exact s.related hR hcall scope
  | expression e => exact e.related hR hcall scope

end Phrases

/-- A call of a function whose body compares in one meaning of calls and in the other. -/
theorem Compositional.function (hR : Compositional R) {depth more : Nat}
    (hcall : ∀ f arguments, R (recordWithin depth f arguments) (recordWithin more f arguments))
    (f : Closure) (arguments : List Value) :
    R (recordWithin (depth + 1) (.function f) arguments)
      (recordWithin (more + 1) (.function f) arguments) := by
  refine hR.bind (hR.enter f arguments) fun scope => ?_
  refine hR.bind (hR.noting (Stmt.relatedAll hR hcall scope f.body .null) _) fun v => ?_
  exact hR.bind (hR.happen _) fun _ => hR.pure _

end Scriptlet
