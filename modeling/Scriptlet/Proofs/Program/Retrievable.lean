import Scriptlet.Program.Source
import Scriptlet.Proofs.Program.WellFormed

/-!
# What can be got back from source text

Source text shows less than the program it was written from: strings stand without quotes, the
blocks of a conditional without braces, and nothing ends an expression on its own.

**Retrievable programs** hold no string and no conditional, and in every block of theirs an
expression on its own comes last, if at all.

**Nesting.**  `nesting` counts how deep expressions nest in the text, where operators and indices
bring their own parentheses, which count as well.

**Result.**  `Program.render_of_wellFormed`: a well-formed program holds nothing foreign, so it has a
text.
-/

namespace Scriptlet

mutual

/-- Whether an expression can be got back from its text. -/
def Expr.retrievable : Expr → Bool
  | .ident _ => true
  | .integer _ => true
  | .boolean _ => true
  | .string _ => false
  | .unary _ right => right.retrievable
  | .binary left _ right => left.retrievable && right.retrievable
  | .conditional _ _ _ => false
  | .function _ body => Stmt.retrievableAll body
  | .call callee arguments => callee.retrievable && Expr.retrievableAll arguments
  | .array elements => Expr.retrievableAll elements
  | .index left subscript => left.retrievable && subscript.retrievable
  | .hash pairs => Expr.retrievablePairs pairs
  | .foreign _ => false

/-- Whether a block can be got back from its text: bindings and returns, and perhaps an expression at
the end. -/
def Stmt.retrievableAll : List Stmt → Bool
  | [] => true
  | .bind _ value :: rest => value.retrievable && Stmt.retrievableAll rest
  | .ret value :: rest => value.retrievable && Stmt.retrievableAll rest
  | [.expr expression] => expression.retrievable
  | .expr _ :: _ :: _ => false
  | .block _ :: _ => false

/-- Whether each of several expressions can be got back. -/
def Expr.retrievableAll : List Expr → Bool
  | [] => true
  | e :: rest => e.retrievable && Expr.retrievableAll rest

/-- Whether the keys and values of a hash literal can be got back. -/
def Expr.retrievablePairs : List (Expr × Expr) → Bool
  | [] => true
  | (key, value) :: rest =>
      key.retrievable && value.retrievable && Expr.retrievablePairs rest

end

/-- Whether a program can be got back from its text. -/
def Program.retrievable (p : Program) : Bool :=
  Stmt.retrievableAll p.statements

mutual

/-- How deep expressions nest in the text of an expression. -/
def Expr.nesting : Expr → Nat
  | .ident _ => 0
  | .integer _ => 0
  | .boolean _ => 0
  | .string _ => 0
  | .unary _ right => right.nesting + 2
  | .binary left _ right => max left.nesting (right.nesting + 1) + 1
  | .conditional condition consequence alternative =>
      max condition.nesting (max (Stmt.nestingAll consequence)
        (match alternative with
          | none => 0
          | some block => Stmt.nestingAll block)) + 1
  | .function _ body => Stmt.nestingAll body + 1
  | .call callee arguments => max callee.nesting (Expr.nestingAll arguments + 1)
  | .array elements => Expr.nestingAll elements + 1
  | .index left subscript => max left.nesting (subscript.nesting + 1) + 1
  | .hash pairs => Expr.nestingPairs pairs + 1
  | .foreign _ => 0

/-- How deep expressions nest in the text of a statement. -/
def Stmt.nesting : Stmt → Nat
  | .bind _ value => value.nesting
  | .ret value => value.nesting
  | .expr expression => expression.nesting
  | .block body => Stmt.nestingAll body

/-- How deep expressions nest in the text of a block. -/
def Stmt.nestingAll : List Stmt → Nat
  | [] => 0
  | s :: rest => max s.nesting (Stmt.nestingAll rest)

/-- How deep expressions nest in the texts of several expressions. -/
def Expr.nestingAll : List Expr → Nat
  | [] => 0
  | e :: rest => max e.nesting (Expr.nestingAll rest)

/-- How deep expressions nest in the keys and values of a hash literal. -/
def Expr.nestingPairs : List (Expr × Expr) → Nat
  | [] => 0
  | (key, value) :: rest => max (max key.nesting value.nesting) (Expr.nestingPairs rest)

end

/-- How deep expressions nest in the text of a program. -/
def Program.nesting (p : Program) : Nat :=
  Stmt.nestingAll p.statements

mutual

theorem Expr.foreign?_of_wellFormed : (e : Expr) → e.wellFormed = true → e.foreign? = none
  | .ident _, _ => rfl
  | .integer _, _ => rfl
  | .boolean _, _ => rfl
  | .string _, _ => rfl
  | .unary _ right, h => by
      simp only [Expr.wellFormed, Bool.and_eq_true] at h
      exact right.foreign?_of_wellFormed h.2
  | .binary left _ right, h => by
      simp only [Expr.wellFormed, Bool.and_eq_true] at h
      rw [Expr.foreign?, left.foreign?_of_wellFormed h.1.2, right.foreign?_of_wellFormed h.2]
      rfl
  | .conditional condition consequence none, h => by
      simp only [Expr.wellFormed, Bool.and_eq_true] at h
      rw [Expr.foreign?, condition.foreign?_of_wellFormed h.1.1,
        Stmt.foreignAmong?_of_wellFormed consequence h.1.2]
      rfl
  | .conditional condition consequence (some other), h => by
      simp only [Expr.wellFormed, Bool.and_eq_true] at h
      rw [Expr.foreign?, condition.foreign?_of_wellFormed h.1.1,
        Stmt.foreignAmong?_of_wellFormed consequence h.1.2]
      exact Stmt.foreignAmong?_of_wellFormed other h.2
  | .function _ body, h => by
      simp only [Expr.wellFormed, Bool.and_eq_true] at h
      exact Stmt.foreignAmong?_of_wellFormed body h.2
  | .call callee arguments, h => by
      simp only [Expr.wellFormed, Bool.and_eq_true] at h
      rw [Expr.foreign?, callee.foreign?_of_wellFormed h.1,
        Expr.foreignAmong?_of_wellFormed arguments h.2]
      rfl
  | .array elements, h => Expr.foreignAmong?_of_wellFormed elements h
  | .index left subscript, h => by
      simp only [Expr.wellFormed, Bool.and_eq_true] at h
      rw [Expr.foreign?, left.foreign?_of_wellFormed h.1, subscript.foreign?_of_wellFormed h.2]
      rfl
  | .hash pairs, h => by
      simp only [Expr.wellFormed, Bool.and_eq_true] at h
      exact Expr.foreignInPairs?_of_wellFormed pairs h.2
  | .foreign _, h => by cases h

theorem Stmt.foreign?_of_wellFormed : (s : Stmt) → s.wellFormed = true → s.foreign? = none
  | .bind _ value, h => by
      simp only [Stmt.wellFormed, Bool.and_eq_true] at h
      exact value.foreign?_of_wellFormed h.2
  | .ret value, h => value.foreign?_of_wellFormed h
  | .expr expression, h => expression.foreign?_of_wellFormed h
  | .block _, h => by cases h

theorem Stmt.foreignAmong?_of_wellFormed :
    (body : List Stmt) → Stmt.wellFormedAll body = true → Stmt.foreignAmong? body = none
  | [], _ => rfl
  | s :: rest, h => by
      simp only [Stmt.wellFormedAll, Bool.and_eq_true] at h
      rw [Stmt.foreignAmong?, s.foreign?_of_wellFormed h.1,
        Stmt.foreignAmong?_of_wellFormed rest h.2]
      rfl

theorem Expr.foreignAmong?_of_wellFormed :
    (es : List Expr) → Expr.wellFormedAll es = true → Expr.foreignAmong? es = none
  | [], _ => rfl
  | e :: rest, h => by
      simp only [Expr.wellFormedAll, Bool.and_eq_true] at h
      rw [Expr.foreignAmong?, e.foreign?_of_wellFormed h.1,
        Expr.foreignAmong?_of_wellFormed rest h.2]
      rfl

theorem Expr.foreignInPairs?_of_wellFormed :
    (pairs : List (Expr × Expr)) → Expr.wellFormedPairs pairs = true →
      Expr.foreignInPairs? pairs = none
  | [], _ => rfl
  | (key, value) :: rest, h => by
      simp only [Expr.wellFormedPairs, Bool.and_eq_true] at h
      rw [Expr.foreignInPairs?, key.foreign?_of_wellFormed h.1.1, value.foreign?_of_wellFormed h.1.2,
        Expr.foreignInPairs?_of_wellFormed rest h.2]
      rfl

end

/-- A well-formed program has a text. -/
theorem Program.render_of_wellFormed {p : Program} (h : p.wellFormed = true) :
    (Node.program p).render = .ok p.source := by
  have hforeign : (Node.program p).foreign? = none := Stmt.foreignAmong?_of_wellFormed _ h
  rw [Node.render, hforeign]
  rfl

end Scriptlet
