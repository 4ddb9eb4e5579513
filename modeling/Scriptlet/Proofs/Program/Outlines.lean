import Scriptlet.Program.Outline

/-!
# Reading outlines back

A phrase can be restored from its outline, so different phrases have different outlines.

**Reading.**  `Outline.node?` and its companions restore a phrase.  The label of a branch, or the type of a
leaf, tells which kind of phrase it is, and the number of its children whether a conditional has an
alternative.  What the outline sets apart by a branch of its own, such as the parameters of a function or the
arguments of a call, is read by a function of its own.

**Built by hand.**  Nothing is asked of a phrase.  Names, operators and strings may be any texts and integers
may be of any size and sign, and a statement may be a block on its own.

**Results.**
* `integerOf_toString`: a numeral stands for the integer it was written for.
* `Node.node?_outline`: reading the outline of a phrase gives the phrase.
* `outlines_tell_phrases_apart`: a phrase without foreign objects has an outline that no other phrase has.
-/

namespace Scriptlet

section Reading

/-- The integer that a numeral stands for. -/
def integerOf (numeral : String) : Int :=
  match numeral.toList with
  | '-' :: digits => -Nat.ofDigitChars 10 digits 0
  | digits => Nat.ofDigitChars 10 digits 0

namespace Outline

/-- The names of parameters. -/
def names? : List Outline → Option (List String)
  | [] => some []
  | leaf "IDENT" name :: rest => do return name :: (← names? rest)
  | _ => none

mutual

/-- The expression with a given outline. -/
def expr? : Outline → Option Expr
  | leaf "IDENT" name => some (.ident name)
  | leaf "INT" numeral => some (.integer (integerOf numeral))
  | leaf "TRUE" "true" => some (.boolean true)
  | leaf "FALSE" "false" => some (.boolean false)
  | leaf "STRING" text => some (.string text)
  | leaf "FOREIGN" typeName => some (.foreign typeName)
  | branch "prefix" [leaf "OP" op, right] => do return .unary op (← expr? right)
  | branch "infix" [left, leaf "OP" op, right] => do return .binary (← expr? left) op (← expr? right)
  | branch "if" [condition, branch "block" consequence] => do
      return .conditional (← expr? condition) (← stmts? consequence) none
  | branch "if" [condition, branch "block" consequence, branch "block" alternative] => do
      return .conditional (← expr? condition) (← stmts? consequence) (some (← stmts? alternative))
  | branch "fn" [branch "paramlist" parameters, branch "block" body] => do
      return .function (← names? parameters) (← stmts? body)
  | branch "call" [callee, branch "args" arguments] => do
      return .call (← expr? callee) (← exprs? arguments)
  | branch "array" elements => do return .array (← exprs? elements)
  | branch "index" [left, subscript] => do return .index (← expr? left) (← expr? subscript)
  | branch "hash" pairs => do return .hash (← pairs? pairs)
  | _ => none

/-- The statement with a given outline. -/
def stmt? : Outline → Option Stmt
  | branch "let" [leaf "IDENT" name, value] => do return .bind name (← expr? value)
  | branch "return" [value] => do return .ret (← expr? value)
  | branch "exprstmt" [expression] => do return .expr (← expr? expression)
  | branch "block" body => do return .block (← stmts? body)
  | _ => none

/-- The statements with given outlines. -/
def stmts? : List Outline → Option (List Stmt)
  | [] => some []
  | o :: rest => do return (← stmt? o) :: (← stmts? rest)

/-- The expressions with given outlines. -/
def exprs? : List Outline → Option (List Expr)
  | [] => some []
  | o :: rest => do return (← expr? o) :: (← exprs? rest)

/-- The pairs of a hash literal with given outlines. -/
def pairs? : List Outline → Option (List (Expr × Expr))
  | [] => some []
  | branch "pair" [key, value] :: rest => do
      return (← expr? key, ← expr? value) :: (← pairs? rest)
  | _ => none

end

/-- The program with a given outline. -/
def program? : Outline → Option Program
  | branch "program" statements => do return ⟨← stmts? statements⟩
  | _ => none

/-- The phrase with a given outline. -/
def node? (o : Outline) : Option Node :=
  (o.stmt?.map Node.statement).or ((o.expr?.map Node.expression).or (o.program?.map Node.program))

end Outline

end Reading

section Leaves

/-- The digits of a natural number start with no minus sign. -/
theorem toDigits_ne_minus (n : Nat) (digits : List Char) : Nat.toDigits 10 n ≠ '-' :: digits := by
  intro h
  have hdigit : '-'.isDigit = true :=
    Nat.isDigit_of_mem_toDigits (by decide) (by decide) (h ▸ List.mem_cons_self)
  cases hdigit

/-- A numeral stands for the integer it was written for. -/
theorem integerOf_toString (n : Int) : integerOf (toString n) = n := by
  cases n with
  | ofNat n =>
      have htext : (toString (Int.ofNat n)).toList = Nat.toDigits 10 n := Nat.toList_repr
      rw [integerOf, htext]
      split
      · next digits hdigits => exact absurd hdigits (toDigits_ne_minus n digits)
      · rw [Nat.ofDigitChars_ten_toDigits]
        rfl
  | negSucc n =>
      have htext : (toString (Int.negSucc n)).toList = '-' :: Nat.toDigits 10 (n + 1) := by
        show ("-" ++ (n + 1).repr).toList = _
        rw [String.toList_append, Nat.toList_repr]
        rfl
      rw [integerOf, htext]
      show -((Nat.ofDigitChars 10 (Nat.toDigits 10 (n + 1)) 0 : Nat) : Int) = _
      rw [Nat.ofDigitChars_ten_toDigits]
      rfl

theorem names?_leaves (names : List String) :
    Outline.names? (names.map (.leaf "IDENT")) = some names := by
  induction names with
  | nil => rfl
  | cons name rest ih => simp [Outline.names?, ih]

end Leaves

section Restoring

mutual

theorem Expr.expr?_outline : (e : Expr) → e.outline.expr? = some e
  | .ident name => by simp [Expr.outline, Outline.expr?]
  | .integer value => by
      have hvalue := integerOf_toString value
      simp only [Expr.outline, Outline.expr?, hvalue]
  | .boolean value => by
      cases value with
      | false => simp [Expr.outline, Outline.expr?]
      | true => simp [Expr.outline, Outline.expr?]
  | .string value => by simp [Expr.outline, Outline.expr?]
  | .unary op right => by simp [Expr.outline, Outline.expr?, right.expr?_outline]
  | .binary left op right => by
      simp [Expr.outline, Outline.expr?, left.expr?_outline, right.expr?_outline]
  | .conditional condition consequence none => by
      simp [Expr.outline, Outline.expr?, condition.expr?_outline, Stmt.stmts?_outlines consequence]
  | .conditional condition consequence (some alternative) => by
      simp [Expr.outline, Outline.expr?, condition.expr?_outline, Stmt.stmts?_outlines consequence,
        Stmt.stmts?_outlines alternative]
  | .function parameters body => by
      simp [Expr.outline, Outline.expr?, names?_leaves, Stmt.stmts?_outlines body]
  | .call callee arguments => by
      simp [Expr.outline, Outline.expr?, callee.expr?_outline, Expr.exprs?_outlines arguments]
  | .array elements => by simp [Expr.outline, Outline.expr?, Expr.exprs?_outlines elements]
  | .index left subscript => by
      simp [Expr.outline, Outline.expr?, left.expr?_outline, subscript.expr?_outline]
  | .hash pairs => by simp [Expr.outline, Outline.expr?, Expr.pairs?_outlines pairs]
  | .foreign typeName => by simp [Expr.outline, Outline.expr?]

theorem Stmt.stmt?_outline : (s : Stmt) → s.outline.stmt? = some s
  | .bind name value => by simp [Stmt.outline, Outline.stmt?, value.expr?_outline]
  | .ret value => by simp [Stmt.outline, Outline.stmt?, value.expr?_outline]
  | .expr expression => by simp [Stmt.outline, Outline.stmt?, expression.expr?_outline]
  | .block body => by simp [Stmt.outline, Outline.stmt?, Stmt.stmts?_outlines body]

theorem Stmt.stmts?_outlines : (body : List Stmt) →
    Outline.stmts? (Stmt.outlines body) = some body
  | [] => rfl
  | s :: rest => by
      simp [Stmt.outlines, Outline.stmts?, s.stmt?_outline, Stmt.stmts?_outlines rest]

theorem Expr.exprs?_outlines : (es : List Expr) → Outline.exprs? (Expr.outlines es) = some es
  | [] => rfl
  | e :: rest => by
      simp [Expr.outlines, Outline.exprs?, e.expr?_outline, Expr.exprs?_outlines rest]

theorem Expr.pairs?_outlines : (pairs : List (Expr × Expr)) →
    Outline.pairs? (Expr.pairOutlines pairs) = some pairs
  | [] => rfl
  | (key, value) :: rest => by
      simp [Expr.pairOutlines, Outline.pairs?, key.expr?_outline, value.expr?_outline,
        Expr.pairs?_outlines rest]

end

theorem Program.program?_outline (p : Program) : p.outline.program? = some p := by
  simp [Program.outline, Outline.program?, Stmt.stmts?_outlines]

/-- No expression is taken for a statement. -/
theorem Expr.stmt?_outline (e : Expr) : e.outline.stmt? = none := by
  cases e with
  | boolean value =>
      cases value with
      | false => simp [Expr.outline, Outline.stmt?]
      | true => simp [Expr.outline, Outline.stmt?]
  | _ => simp [Expr.outline, Outline.stmt?]

/-- No program is taken for a statement or an expression. -/
theorem Program.stmt?_expr?_outline (p : Program) :
    p.outline.stmt? = none ∧ p.outline.expr? = none := by
  constructor
  · simp [Program.outline, Outline.stmt?]
  · simp [Program.outline, Outline.expr?]

/-- Reading the outline of a phrase gives the phrase. -/
theorem Node.node?_outline (n : Node) : n.outline.node? = some n := by
  cases n with
  | program p =>
      obtain ⟨hstmt, hexpr⟩ := p.stmt?_expr?_outline
      show p.outline.node? = _
      rw [Outline.node?, hstmt, hexpr, p.program?_outline]
      rfl
  | statement s =>
      show s.outline.node? = _
      rw [Outline.node?, s.stmt?_outline]
      rfl
  | expression e =>
      show e.outline.node? = _
      rw [Outline.node?, e.stmt?_outline, e.expr?_outline]
      rfl

end Restoring

/-- The outline of a phrase can be shown only if it holds no foreign object. -/
theorem project_eq_ok_iff {n : Node} {o : Outline} :
    n.project = .ok o ↔ n.foreign? = none ∧ n.outline = o := by
  rw [Node.project]
  split
  · next typeName h => simp [h]
  · next h => simp [h]

/-- A phrase without foreign objects has an outline, from which it can be restored whatever its names,
operators, strings and integers are; so no other phrase has the same outline. -/
theorem outlines_tell_phrases_apart :
    (∀ n : Node, n.foreign? = none → ∃ o, n.project = .ok o ∧ o.node? = some n) ∧
    (∀ (n m : Node) (o : Outline), n.project = .ok o → m.project = .ok o → n = m) ∧
    (∀ n m : Node, n.outline = m.outline → n = m) := by
  have hinjective : ∀ n m : Node, n.outline = m.outline → n = m := by
    intro n m h
    have hread : some n = some m := by
      rw [← n.node?_outline, h, m.node?_outline]
    exact Option.some.inj hread
  refine ⟨?_, ?_, hinjective⟩
  · intro n hn
    exact ⟨n.outline, project_eq_ok_iff.mpr ⟨hn, rfl⟩, n.node?_outline⟩
  · intro n m o hn hm
    have hn := (project_eq_ok_iff.mp hn).2
    have hm := (project_eq_ok_iff.mp hm).2
    exact hinjective n m (hn.trans hm.symm)

end Scriptlet
