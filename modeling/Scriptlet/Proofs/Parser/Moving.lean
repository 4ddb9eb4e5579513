import Scriptlet.Proofs.Parser.Building

/-!
# How far a step moves

A step moves some number of tokens on and adds some errors to those found before, and does nothing else to
the state of a parser.

**States.**  `p.after n` is the state `p` moved `n` tokens on, and `p.moved n more` is that state with the
errors `more` after those of `p`.

**Results.**
* `Built.relates`: a preorder that every movement and every report is in relates the states before and
  after any step.
* `Built.moves`: every step takes a state `p` to some `p.moved n more`.
-/

namespace Scriptlet

namespace Parser

open Step

namespace State

/-- The state so many tokens further on. -/
def after (p : State) : Nat → State
  | 0 => p
  | n + 1 => (p.after n).advance

/-- The state so many tokens further on, with more errors. -/
def moved (p : State) (n : Nat) (more : List SyntaxError) : State :=
  { p.after n with errors := p.errors ++ more }

@[simp] theorem errors_moved (p : State) (n : Nat) (more : List SyntaxError) :
    (p.moved n more).errors = p.errors ++ more := rfl

@[simp] theorem current_moved (p : State) (n : Nat) (more : List SyntaxError) :
    (p.moved n more).current = (p.after n).current := rfl

theorem errors_after (p : State) (n : Nat) : (p.after n).errors = p.errors := by
  induction n with
  | zero => rfl
  | succ n ih => exact ih

theorem moved_nil (p : State) (n : Nat) : p.moved n [] = p.after n := by
  rw [moved, List.append_nil, ← errors_after p n]

theorem after_moved (p : State) (m n : Nat) (more : List SyntaxError) :
    (p.moved m more).after n = p.moved (m + n) more := by
  induction n with
  | zero => rfl
  | succ n ih =>
      rw [after, ih]
      rfl

theorem moved_moved (p : State) (m n : Nat) (more later : List SyntaxError) :
    (p.moved m more).moved n later = p.moved (m + n) (more ++ later) := by
  rw [moved, after_moved, errors_moved, List.append_assoc]
  rfl

theorem report_eq_moved (p : State) (e : SyntaxError) : p.report e = p.moved 0 [e] := rfl

end State

/-- A preorder on states that every movement and every report is in relates the states before and after
whatever is built from primitive steps. -/
theorem Built.relates {R : State → State → Prop} (hrefl : ∀ p, R p p)
    (htrans : ∀ {p q r}, R p q → R q r → R p r) (hadvance : ∀ p, R p p.advance)
    (hreport : ∀ p e, R p (p.report e)) {α : Type} {x : Step α} (h : Built x) :
    ∀ {p : State} {a : α} {q : State}, x.run p = .ok (a, q) → R p q := by
  induction h with
  | pure a =>
      intro p b q hrun
      cases hrun
      exact hrefl p
  | @bind _ _ x f _ _ ihx ihf =>
      intro p b q hrun
      rw [run_bind] at hrun
      cases hfirst : x.run p with
      | error fault =>
          rw [hfirst] at hrun
          cases hrun
      | ok result =>
          rw [hfirst] at hrun
          exact htrans (ihx hfirst) (ihf result.1 hrun)
  | current _ _ ihf =>
      intro p b q hrun
      exact ihf p.current hrun
  | peekKind =>
      intro p b q hrun
      cases hrun
      exact hrefl p
  | advance =>
      intro p b q hrun
      cases hrun
      exact hadvance p
  | report e =>
      intro p b q hrun
      cases hrun
      exact hreport p e
  | halt fault =>
      intro p b q hrun
      cases hrun
  | @iterate _ _ round shrinks _ s ih =>
      intro p b q hrun
      change iterateRun round shrinks s p = _ at hrun
      fun_induction iterateRun round shrinks s p with
      | case1 => cases hrun
      | case2 s p b r hr =>
          cases hrun
          exact ih s hr
      | case3 s p s' r hr ihrun => exact htrans (ih s hr) (ihrun hrun)

theorem Built.moves {α : Type} {x : Step α} (h : Built x) {p : State} {a : α} {q : State}
    (hrun : x.run p = .ok (a, q)) : ∃ n more, q = p.moved n more := by
  refine h.relates (R := fun p q => ∃ n more, q = p.moved n more) ?_ ?_ ?_ ?_ hrun
  · intro p
    exact ⟨0, [], (p.moved_nil 0).symm⟩
  · rintro p _ _ ⟨m, more, rfl⟩ ⟨n, later, rfl⟩
    exact ⟨m + n, more ++ later, p.moved_moved m n more later⟩
  · intro p
    exact ⟨1, [], (p.moved_nil 1).symm⟩
  · intro p e
    exact ⟨0, [e], p.report_eq_moved e⟩

end Parser

end Scriptlet
