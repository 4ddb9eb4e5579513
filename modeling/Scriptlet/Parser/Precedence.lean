import Scriptlet.Token

/-!
# Precedence

How tightly operators bind, from the loosest to the tightest.

A token that continues an expression does so in one of three ways: as an operator between two
operands, as the opening bracket of a call, or as the opening bracket of an index.  Every other
token has the lowest precedence, at which no expression is continued.
-/

namespace Scriptlet

/-- The levels of binding. -/
inductive Precedence where
  | lowest
  | equals
  | lessGreater
  | sum
  | product
  | unary
  | call
  | index
  deriving DecidableEq, Repr

namespace Precedence

/-- The rank of a level; a higher rank binds more tightly. -/
def rank : Precedence → Nat
  | lowest => 1
  | equals => 2
  | lessGreater => 3
  | sum => 4
  | product => 5
  | unary => 6
  | call => 7
  | index => 8

/-- The name of a level. -/
def name : Precedence → String
  | lowest => "LOWEST"
  | equals => "EQUALS"
  | lessGreater => "LESSGREATER"
  | sum => "SUM"
  | product => "PRODUCT"
  | unary => "PREFIX"
  | call => "CALL"
  | index => "INDEX"

/-- The level with a given name. -/
def ofName? (text : String) : Option Precedence :=
  [lowest, equals, lessGreater, sum, product, unary, call, index].find? fun p => p.name == text

end Precedence

/-- The ways in which a token continues an expression. -/
inductive Suffix where
  | operator
  | call
  | index
  deriving DecidableEq, Repr

namespace TokenKind

/-- How tightly a token binds to the expression before it. -/
def precedence : TokenKind → Precedence
  | eq | notEq => .equals
  | lt | gt => .lessGreater
  | plus | minus => .sum
  | slash | asterisk => .product
  | lparen => .call
  | lbracket => .index
  | _ => .lowest

/-- The way in which a token continues an expression. -/
def suffix? : TokenKind → Option Suffix
  | eq | notEq | lt | gt | plus | minus | slash | asterisk => some .operator
  | lparen => some .call
  | lbracket => some .index
  | _ => none

theorem ne_eof_of_suffix? {kind : TokenKind} {s : Suffix} (h : kind.suffix? = some s) :
    kind ≠ eof := by
  rintro rfl
  cases h

end TokenKind

end Scriptlet
