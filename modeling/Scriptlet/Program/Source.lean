import Scriptlet.Program.Basic
import Scriptlet.Text.Joined

/-!
# Source text of programs

A phrase is written back as text in which every operator has its parentheses.

**What is written.**  Statements follow one another without a separator; `let` and `return` end in
a semicolon and expressions do not.  Strings are written without quotes, blocks without braces
except as function bodies.

**What cannot be written.**  A foreign object has no text.  `foreign?` finds the first one in
reading order, and `Node.render` refuses a phrase that holds one.
-/

namespace Scriptlet

/-- Texts with a comma and a blank between each two. -/
def commaSeparated (texts : List String) : String :=
  Text.joined ", " texts

mutual

/-- The text of an expression; a foreign object stands for nothing. -/
def Expr.source : Expr → String
  | .ident name => name
  | .integer value => toString value
  | .boolean value => if value then "true" else "false"
  | .string value => value
  | .unary op right => "(" ++ op ++ right.source ++ ")"
  | .binary left op right => "(" ++ left.source ++ " " ++ op ++ " " ++ right.source ++ ")"
  | .conditional condition consequence alternative =>
      "if" ++ condition.source ++ " " ++ Stmt.sourceAll consequence ++
        (match alternative with
          | none => ""
          | some block => "else " ++ Stmt.sourceAll block)
  | .function parameters body =>
      "fn(" ++ commaSeparated parameters ++ ")\x7b " ++ Stmt.sourceAll body ++ " \x7d"
  | .call callee arguments =>
      callee.source ++ "(" ++ commaSeparated (Expr.sources arguments) ++ ")"
  | .array elements => "[" ++ commaSeparated (Expr.sources elements) ++ "]"
  | .index left subscript => "(" ++ left.source ++ "[" ++ subscript.source ++ "])"
  | .hash pairs => "\x7b" ++ commaSeparated (Expr.pairSources pairs) ++ "\x7d"
  | .foreign _ => ""

/-- The text of a statement. -/
def Stmt.source : Stmt → String
  | .bind name value => "let " ++ name ++ " = " ++ value.source ++ ";"
  | .ret value => "return " ++ value.source ++ ";"
  | .expr expression => expression.source
  | .block body => Stmt.sourceAll body

/-- The text of a block: its statements one after the other. -/
def Stmt.sourceAll : List Stmt → String
  | [] => ""
  | s :: rest => s.source ++ Stmt.sourceAll rest

/-- The texts of several expressions. -/
def Expr.sources : List Expr → List String
  | [] => []
  | e :: rest => e.source :: Expr.sources rest

/-- The texts of the pairs of a hash literal. -/
def Expr.pairSources : List (Expr × Expr) → List String
  | [] => []
  | (key, value) :: rest => (key.source ++ ": " ++ value.source) :: Expr.pairSources rest

end

mutual

/-- The type name of the first foreign object in an expression, in reading order. -/
def Expr.foreign? : Expr → Option String
  | .ident _ => none
  | .integer _ => none
  | .boolean _ => none
  | .string _ => none
  | .unary _ right => right.foreign?
  | .binary left _ right => left.foreign?.or right.foreign?
  | .conditional condition consequence alternative =>
      condition.foreign?.or ((Stmt.foreignAmong? consequence).or
        (match alternative with
          | none => none
          | some block => Stmt.foreignAmong? block))
  | .function _ body => Stmt.foreignAmong? body
  | .call callee arguments => callee.foreign?.or (Expr.foreignAmong? arguments)
  | .array elements => Expr.foreignAmong? elements
  | .index left subscript => left.foreign?.or subscript.foreign?
  | .hash pairs => Expr.foreignInPairs? pairs
  | .foreign typeName => some typeName

/-- The type name of the first foreign object in a statement. -/
def Stmt.foreign? : Stmt → Option String
  | .bind _ value => value.foreign?
  | .ret value => value.foreign?
  | .expr expression => expression.foreign?
  | .block body => Stmt.foreignAmong? body

/-- The type name of the first foreign object in a block. -/
def Stmt.foreignAmong? : List Stmt → Option String
  | [] => none
  | s :: rest => s.foreign?.or (Stmt.foreignAmong? rest)

/-- The type name of the first foreign object in several expressions. -/
def Expr.foreignAmong? : List Expr → Option String
  | [] => none
  | e :: rest => e.foreign?.or (Expr.foreignAmong? rest)

/-- The type name of the first foreign object in the pairs of a hash literal. -/
def Expr.foreignInPairs? : List (Expr × Expr) → Option String
  | [] => none
  | (key, value) :: rest =>
      key.foreign?.or (value.foreign?.or (Expr.foreignInPairs? rest))

end

/-- Why a phrase has no source text or no tree: it holds a foreign object. -/
inductive Unprintable where
  | render (typeName : String)
  | project (typeName : String)
  deriving DecidableEq, Repr

/-- The wording of a refusal. -/
def Unprintable.message : Unprintable → String
  | .render typeName => "Cannot render " ++ typeName
  | .project typeName => "Cannot project " ++ typeName

/-- The text of a program. -/
def Program.source (p : Program) : String :=
  Stmt.sourceAll p.statements

namespace Node

/-- The text of a phrase. -/
def source : Node → String
  | program p => p.source
  | statement s => s.source
  | expression e => e.source

/-- The type name of the first foreign object in a phrase. -/
def foreign? : Node → Option String
  | program p => Stmt.foreignAmong? p.statements
  | statement s => s.foreign?
  | expression e => e.foreign?

/-- The text of a phrase, unless it holds a foreign object. -/
def render (n : Node) : Except Unprintable String :=
  match n.foreign? with
  | some typeName => .error (.render typeName)
  | none => .ok n.source

end Node

end Scriptlet
