import Scriptlet.Integer
import Scriptlet.Scanner
import Scriptlet.Program.Basic

/-!
# Well-formed programs

The programs that can be written down: those whose names, literals and operators are words of the
language.

A phrase built by hand may hold a name with a blank in it, a negative integer, a string with a quote,
an operator of its own, a block where a statement should be, two equal keys or something foreign.  A
well-formed one holds none of these, at any depth.
-/

namespace Scriptlet

/-- A word that is not reserved. -/
def isName (name : String) : Bool :=
  name ≠ "" && name.toList.all isLetter && TokenKind.ofWord name = .ident

/-- The operators in front of an operand, as written. -/
def unaryOperators : List String :=
  ["!", "-"]

/-- The operators between two operands, as written. -/
def binaryOperators : List String :=
  ["+", "-", "*", "/", "<", ">", "==", "!="]

mutual

/-- Whether an expression can be written down. -/
def Expr.wellFormed : Expr → Bool
  | .ident name => isName name
  | .integer value => 0 ≤ value && value ≤ maxInteger
  | .boolean _ => true
  | .string value => '"' ∉ value.toList
  | .unary op right => op ∈ unaryOperators && right.wellFormed
  | .binary left op right => op ∈ binaryOperators && left.wellFormed && right.wellFormed
  | .conditional condition consequence alternative =>
      condition.wellFormed && Stmt.wellFormedAll consequence &&
        (match alternative with
          | none => true
          | some block => Stmt.wellFormedAll block)
  | .function parameters body => parameters.all isName && Stmt.wellFormedAll body
  | .call callee arguments => callee.wellFormed && Expr.wellFormedAll arguments
  | .array elements => Expr.wellFormedAll elements
  | .index left subscript => left.wellFormed && subscript.wellFormed
  | .hash pairs => (pairs.map Prod.fst).Nodup && Expr.wellFormedPairs pairs
  | .foreign _ => false

/-- Whether a statement can be written down; a block on its own cannot. -/
def Stmt.wellFormed : Stmt → Bool
  | .bind name value => isName name && value.wellFormed
  | .ret value => value.wellFormed
  | .expr expression => expression.wellFormed
  | .block _ => false

/-- Whether every statement of a block can be written down. -/
def Stmt.wellFormedAll : List Stmt → Bool
  | [] => true
  | s :: rest => s.wellFormed && Stmt.wellFormedAll rest

/-- Whether each of several expressions can be written down. -/
def Expr.wellFormedAll : List Expr → Bool
  | [] => true
  | e :: rest => e.wellFormed && Expr.wellFormedAll rest

/-- Whether the keys and values of a hash literal can be written down. -/
def Expr.wellFormedPairs : List (Expr × Expr) → Bool
  | [] => true
  | (key, value) :: rest => key.wellFormed && value.wellFormed && Expr.wellFormedPairs rest

end

theorem Stmt.wellFormedAll_append (body more : Block) :
    Stmt.wellFormedAll (body ++ more) = (Stmt.wellFormedAll body && Stmt.wellFormedAll more) := by
  induction body with
  | nil => rfl
  | cons s rest ih => rw [List.cons_append, wellFormedAll, ih, wellFormedAll, Bool.and_assoc]

theorem Expr.wellFormedAll_append (es more : List Expr) :
    Expr.wellFormedAll (es ++ more) = (Expr.wellFormedAll es && Expr.wellFormedAll more) := by
  induction es with
  | nil => rfl
  | cons e rest ih => rw [List.cons_append, wellFormedAll, ih, wellFormedAll, Bool.and_assoc]

/-- Whether a program can be written down. -/
def Program.wellFormed (p : Program) : Bool :=
  Stmt.wellFormedAll p.statements

end Scriptlet
