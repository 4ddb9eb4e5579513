import Scriptlet.Program.Source

/-!
# Outlines of programs

A phrase is projected onto a tree of labels and leaves that shows its structure.

**Trees.**  A leaf has a type and a text; a branch has a label and its children in reading order.

**Printing.**  A branch takes a line, indented by two blanks for every level above it, and its
children follow one level deeper.  A branch whose only child is a leaf has that leaf on its own
line, behind a tab.

**Depth.**  A leaf is one level, and a branch is one more than the deepest of its children.
-/

namespace Scriptlet

/-- The outline of a phrase. -/
inductive Outline where
  | leaf (type : String) (text : String)
  | branch (label : String) (children : List Outline)

namespace Outline

/-- Two blanks for every level. -/
def indent : Nat → String
  | 0 => ""
  | level + 1 => "  " ++ indent level

mutual

/-- The lines of an outline that stands at a given level. -/
def printAt (level : Nat) : Outline → String
  | leaf _ text => indent level ++ text ++ "\n"
  | branch label [leaf _ text] => indent level ++ label ++ "\t" ++ text ++ "\n"
  | branch label children => indent level ++ label ++ "\n" ++ printAllAt (level + 1) children

/-- The lines of several outlines that stand at a given level. -/
def printAllAt (level : Nat) : List Outline → String
  | [] => ""
  | o :: rest => printAt level o ++ printAllAt level rest

end

/-- The lines of an outline. -/
def print (o : Outline) : String :=
  printAt 0 o

mutual

/-- How many levels an outline has. -/
def depth : Outline → Nat
  | leaf _ _ => 1
  | branch _ children => depthAll children + 1

/-- How many levels the deepest of several outlines has. -/
def depthAll : List Outline → Nat
  | [] => 0
  | o :: rest => max (depth o) (depthAll rest)

end

end Outline

mutual

/-- The outline of an expression. -/
def Expr.outline : Expr → Outline
  | .ident name => .leaf "IDENT" name
  | .integer value => .leaf "INT" (toString value)
  | .boolean value => if value then .leaf "TRUE" "true" else .leaf "FALSE" "false"
  | .string value => .leaf "STRING" value
  | .unary op right => .branch "prefix" [.leaf "OP" op, right.outline]
  | .binary left op right => .branch "infix" [left.outline, .leaf "OP" op, right.outline]
  | .conditional condition consequence alternative =>
      .branch "if" (condition.outline :: .branch "block" (Stmt.outlines consequence) ::
        (match alternative with
          | none => []
          | some block => [.branch "block" (Stmt.outlines block)]))
  | .function parameters body =>
      .branch "fn" [.branch "paramlist" (parameters.map (.leaf "IDENT")),
        .branch "block" (Stmt.outlines body)]
  | .call callee arguments =>
      .branch "call" [callee.outline, .branch "args" (Expr.outlines arguments)]
  | .array elements => .branch "array" (Expr.outlines elements)
  | .index left subscript => .branch "index" [left.outline, subscript.outline]
  | .hash pairs => .branch "hash" (Expr.pairOutlines pairs)
  | .foreign typeName => .leaf "FOREIGN" typeName

/-- The outline of a statement. -/
def Stmt.outline : Stmt → Outline
  | .bind name value => .branch "let" [.leaf "IDENT" name, value.outline]
  | .ret value => .branch "return" [value.outline]
  | .expr expression => .branch "exprstmt" [expression.outline]
  | .block body => .branch "block" (Stmt.outlines body)

/-- The outlines of the statements of a block. -/
def Stmt.outlines : List Stmt → List Outline
  | [] => []
  | s :: rest => s.outline :: Stmt.outlines rest

/-- The outlines of several expressions. -/
def Expr.outlines : List Expr → List Outline
  | [] => []
  | e :: rest => e.outline :: Expr.outlines rest

/-- The outlines of the pairs of a hash literal. -/
def Expr.pairOutlines : List (Expr × Expr) → List Outline
  | [] => []
  | (key, value) :: rest =>
      .branch "pair" [key.outline, value.outline] :: Expr.pairOutlines rest

end

/-- The outline of a program. -/
def Program.outline (p : Program) : Outline :=
  .branch "program" (Stmt.outlines p.statements)

namespace Node

/-- The outline of a phrase; a foreign object is a leaf of a type of its own. -/
def outline : Node → Outline
  | program p => p.outline
  | statement s => s.outline
  | expression e => e.outline

/-- The outline of a phrase, unless it holds a foreign object. -/
def project (n : Node) : Except Unprintable Outline :=
  match n.foreign? with
  | some typeName => .error (.project typeName)
  | none => .ok n.outline

end Node

end Scriptlet
