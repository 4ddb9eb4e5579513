import Scriptlet.Proofs.Program.Writing

/-!
# Chains of operators

What can be written without parentheses, and the tree it stands for.

**Chains.**  A chain is one part, or several with operators between them.  A part is a name, a
numeral, a truth value or a string, with any number of calls and indices after it and any number of
operators in front.  Arguments and subscripts are chains again.

**In order.**  `Expr.inOrder` lists the operands and operators of a tree in the order in which they
are written.  It stops at everything that is not an operator between two operands.

**Ordered trees.**  In an ordered tree, an operator that is the left operand of another binds at least
as tightly as that one, and one that is the right operand binds more tightly.

**The tree of a chain.**  `Chain.Describes`: the tree is ordered, and in order it has the trees of the
parts and the operators of the chain.  In the tree of a part, the calls and indices are applied first,
from left to right, and the operators in front to what comes of it.

**Results.**
* `Expr.Ordered.eq_of_inOrder_eq`: an ordered tree is determined by what it has in order.
* `Chain.describes_iff`: a chain describes exactly one tree, its `Chain.tree`.
* `Chain.words_of_spaced`: every chain can be written down.
-/

namespace Scriptlet

section Order

/-- How tightly an operator binds its two operands. -/
def tightness : String → Nat
  | "==" | "!=" => 1
  | "<" | ">" => 2
  | "+" | "-" => 3
  | "*" | "/" => 4
  | _ => 0

/-- The operands and operators of an expression, from left to right. -/
def Expr.inOrder : Expr → List (Expr ⊕ String)
  | .binary left op right => left.inOrder ++ .inr op :: right.inOrder
  | e => [.inl e]

/-- If there is an operator between two operands at the root, it has the property. -/
def Expr.Root (P : String → Prop) : Expr → Prop
  | .binary _ op _ => P op
  | _ => True

/-- The left operand of an operator binds at least as tightly, and the right one more tightly. -/
def Expr.Ordered : Expr → Prop
  | .binary left op right =>
      left.Ordered ∧ right.Ordered ∧
        left.Root (tightness op ≤ tightness ·) ∧ right.Root (tightness op < tightness ·)
  | _ => True

/-- There is no operator between two operands at the root. -/
def Expr.IsOperand (e : Expr) : Prop :=
  ∀ left op right, e ≠ .binary left op right

/-- Puts an operand and an operator in front of an expression. -/
def Expr.prepend (first : Expr) (op : String) : Expr → Expr
  | .binary left op' right =>
      if tightness op < tightness op' then .binary first op (.binary left op' right)
      else .binary (Expr.prepend first op left) op' right
  | e => .binary first op e

namespace Expr

variable {e e' first left right : Expr} {op : String} {P Q : String → Prop}

theorem IsOperand.inOrder (h : e.IsOperand) : e.inOrder = [.inl e] := by
  cases e with
  | binary left op right => exact absurd rfl (h left op right)
  | _ => rfl

theorem IsOperand.root (h : e.IsOperand) : e.Root P := by
  cases e with
  | binary left op right => exact absurd rfl (h left op right)
  | _ => trivial

theorem IsOperand.ordered (h : e.IsOperand) : e.Ordered := by
  cases e with
  | binary left op right => exact absurd rfl (h left op right)
  | _ => trivial

theorem IsOperand.prepend (h : e.IsOperand) : Expr.prepend first op e = .binary first op e := by
  cases e with
  | binary left op right => exact absurd rfl (h left op right)
  | _ => rfl

theorem Root.mono (h : e.Root P) (hPQ : ∀ op, P op → Q op) : e.Root Q := by
  cases e with
  | binary left op right => exact hPQ op h
  | _ => trivial

theorem inOrder_binary :
    (Expr.binary left op right).inOrder = left.inOrder ++ .inr op :: right.inOrder := rfl

/-- What is no operation has itself in order and nothing else. -/
theorem IsOperand.inOrder_ne (h : e.IsOperand) : e.inOrder ≠ (binary left op right).inOrder := by
  rw [h.inOrder, inOrder_binary]
  cases left.inOrder with
  | nil => simp
  | cons item items => simp

theorem isOperand_or_binary (e : Expr) :
    e.IsOperand ∨ ∃ left op right, e = binary left op right := by
  by_cases h : ∃ left op right, e = binary left op right
  · exact Or.inr h
  · exact Or.inl fun left op right heq => h ⟨left, op, right, heq⟩

section Uniqueness

/-- No operator in an ordered tree binds less tightly than the one at its root. -/
theorem Ordered.le_of_mem {k : Nat} (h : e.Ordered) (hroot : e.Root (k ≤ tightness ·)) :
    ∀ op, .inr op ∈ e.inOrder → k ≤ tightness op := by
  fun_induction Expr.inOrder e with
  | case1 left op right ihleft ihright =>
      obtain ⟨hleft, hright, hlefts, hrights⟩ := h
      have hop : k ≤ tightness op := hroot
      intro op' hmem
      rw [List.mem_append, List.mem_cons] at hmem
      rcases hmem with hmem | heq | hmem
      · exact ihleft hleft (hlefts.mono fun _ hle => Nat.le_trans hop hle) op' hmem
      · cases heq
        exact hop
      · exact ihright hright (hrights.mono fun _ hlt => Nat.le_trans hop (Nat.le_of_lt hlt)) op' hmem
  | case2 e hoperand =>
      intro op' hmem
      simp at hmem

variable {left' right' : Expr} {op' : String}

/-- Of two ordered trees, neither has its root further to the left than the other: the root on the
left would have to bind both at least as tightly as the other and less tightly. -/
theorem Ordered.not_apart {between : List (Expr ⊕ String)} (h : (binary left op right).Ordered)
    (h' : (binary left' op' right').Ordered)
    (hleft : left'.inOrder = left.inOrder ++ .inr op :: between)
    (hright : right.inOrder = between ++ .inr op' :: right'.inOrder) : False := by
  obtain ⟨-, hright', -, hroot⟩ := h
  obtain ⟨hleft', -, hroot', -⟩ := h'
  have hle : tightness op' ≤ tightness op := hleft'.le_of_mem hroot' op (by simp [hleft])
  have hlt : tightness op < tightness op' := hright'.le_of_mem hroot op' (by simp [hright])
  omega

/-- Two ordered trees that have the same in order have their roots at the same place. -/
theorem Ordered.eq_at_root (h : (binary left op right).Ordered)
    (h' : (binary left' op' right').Ordered)
    (heq : (binary left op right).inOrder = (binary left' op' right').inOrder) :
    left.inOrder = left'.inOrder ∧ op = op' ∧ right.inOrder = right'.inOrder := by
  rw [inOrder_binary, inOrder_binary] at heq
  rcases List.append_eq_append_iff.mp heq with ⟨between, hl, hr⟩ | ⟨between, hl, hr⟩
  · cases between with
    | nil =>
        rw [List.nil_append, List.cons.injEq, Sum.inr.injEq] at hr
        rw [List.append_nil] at hl
        exact ⟨hl.symm, hr⟩
    | cons item between =>
        rw [List.cons_append, List.cons.injEq] at hr
        obtain ⟨rfl, hr⟩ := hr
        exact (h.not_apart h' hl hr).elim
  · cases between with
    | nil =>
        rw [List.nil_append, List.cons.injEq, Sum.inr.injEq] at hr
        rw [List.append_nil] at hl
        exact ⟨hl, hr.1.symm, hr.2.symm⟩
    | cons item between =>
        rw [List.cons_append, List.cons.injEq] at hr
        obtain ⟨rfl, hr⟩ := hr
        exact (h'.not_apart h hl hr).elim

/-- An ordered tree is determined by its operands and operators in order. -/
theorem Ordered.eq_of_inOrder_eq (h : e.Ordered) (h' : e'.Ordered)
    (heq : e.inOrder = e'.inOrder) : e = e' := by
  fun_induction Expr.inOrder e generalizing e' with
  | case1 left op right ihleft ihright =>
      rw [← inOrder_binary] at heq
      rcases e'.isOperand_or_binary with hoperand | ⟨left', op', right', rfl⟩
      · exact absurd heq.symm hoperand.inOrder_ne
      · obtain ⟨hlefts, rfl, hrights⟩ := h.eq_at_root h' heq
        rw [ihleft h.1 h'.1 hlefts, ihright h.2.1 h'.2.1 hrights]
  | case2 e he =>
      have hoperand : e.IsOperand := he
      rw [← hoperand.inOrder] at heq
      rcases e'.isOperand_or_binary with hoperand' | ⟨left', op', right', rfl⟩
      · rw [hoperand.inOrder, hoperand'.inOrder, List.cons.injEq, Sum.inl.injEq] at heq
        exact heq.1
      · exact absurd heq hoperand.inOrder_ne

end Uniqueness

section Prepending

theorem inOrder_prepend (hfirst : first.IsOperand) (e : Expr) :
    (prepend first op e).inOrder = .inl first :: .inr op :: e.inOrder := by
  fun_induction Expr.prepend first op e with
  | case1 left op' right h => rw [inOrder_binary, hfirst.inOrder, List.singleton_append]
  | case2 left op' right h ih =>
      rw [inOrder_binary, ih, inOrder_binary, List.cons_append, List.cons_append]
  | case3 e h =>
      rw [inOrder_binary, hfirst.inOrder, List.singleton_append]

theorem root_prepend (hop : P op) (he : e.Root P) : (prepend first op e).Root P := by
  fun_cases Expr.prepend first op e with
  | case1 => exact hop
  | case2 => exact he
  | case3 => exact hop

/-- What is put in front goes to the left of every operator that does not bind more tightly. -/
theorem ordered_prepend (hfirst : first.IsOperand) (he : e.Ordered) :
    (prepend first op e).Ordered := by
  fun_induction Expr.prepend first op e with
  | case1 left op' right h => exact ⟨hfirst.ordered, he, hfirst.root, h⟩
  | case2 left op' right h ih =>
      obtain ⟨hleft, hright, hlefts, hrights⟩ := he
      exact ⟨ih hleft, hright, root_prepend (Nat.le_of_not_lt h) hlefts, hrights⟩
  | case3 e h =>
      have hoperand : e.IsOperand := h
      exact ⟨hfirst.ordered, he, hfirst.root, hoperand.root⟩

end Prepending

end Expr

end Order

section Chains

/-- A name, a numeral, a truth value or a string. -/
inductive Atom where
  | ident (name : String) (h : isName name = true)
  | integer (value : Nat) (numeral : String) (h : IsNumeral numeral value)
      (hrange : (value : Int) ≤ maxInteger)
  | boolean (value : Bool)
  | string (text : String) (h : '"' ∉ text.toList)

mutual

/-- An atom with calls and indices after it. -/
inductive Stem where
  | atom (a : Atom)
  | call (callee : Stem) (arguments : List Chain)
  | index (left : Stem) (subscript : Chain)

/-- A stem with operators in front of it. -/
inductive Part where
  | stem (s : Stem)
  | unary (op : String) (h : op ∈ unaryOperators) (operand : Part)

/-- One part, or several with operators between them. -/
inductive Chain where
  | last (part : Part)
  | more (part : Part) (op : String) (h : op ∈ binaryOperators) (rest : Chain)

end

/-- The lexeme of an atom. -/
def Atom.lexeme : Atom → String
  | ident name _ => name
  | integer _ numeral _ _ => numeral
  | boolean value => if value then "true" else "false"
  | string text _ => "\"" ++ text ++ "\""

/-- The expression that an atom is. -/
def Atom.tree : Atom → Expr
  | ident name _ => .ident name
  | integer value _ _ _ => .integer value
  | boolean value => .boolean value
  | string text _ => .string text

mutual

/-- The lexemes of an atom with its calls and indices. -/
def Stem.lexemes : Stem → List String
  | .atom a => [a.lexeme]
  | .call callee arguments => callee.lexemes ++ parenthesized (Chain.lexemesAll arguments)
  | .index left subscript => left.lexemes ++ bracketed subscript.lexemes

/-- The lexemes of a part. -/
def Part.lexemes : Part → List String
  | .stem s => s.lexemes
  | .unary op _ operand => op :: operand.lexemes

/-- The lexemes of a chain. -/
def Chain.lexemes : Chain → List String
  | .last part => part.lexemes
  | .more part op _ rest => part.lexemes ++ op :: rest.lexemes

/-- The lexemes of several chains, with commas between them. -/
def Chain.lexemesAll : List Chain → List String
  | [] => []
  | [c] => c.lexemes
  | c :: next :: rest => c.lexemes ++ "," :: Chain.lexemesAll (next :: rest)

end

mutual

/-- Calls and indices are applied from left to right. -/
inductive Stem.Describes : Stem → Expr → Prop
  | atom {a : Atom} :
      Stem.Describes (.atom a) a.tree
  | call {callee : Stem} {arguments : List Chain} {e : Expr} {es : List Expr} :
      Stem.Describes callee e →
      Chain.DescribesAll arguments es →
      Stem.Describes (.call callee arguments) (.call e es)
  | index {left : Stem} {subscript : Chain} {e e' : Expr} :
      Stem.Describes left e →
      Chain.Describes subscript e' →
      Stem.Describes (.index left subscript) (.index e e')

/-- The operators in front of a part are applied to what follows them. -/
inductive Part.Describes : Part → Expr → Prop
  | stem {s : Stem} {e : Expr} :
      Stem.Describes s e →
      Part.Describes (.stem s) e
  | unary {op : String} {h : op ∈ unaryOperators} {operand : Part} {e : Expr} :
      Part.Describes operand e →
      Part.Describes (.unary op h operand) (.unary op e)

/-- The trees of the parts, with the operators of the chain between them. -/
inductive Chain.Lists : Chain → List (Expr ⊕ String) → Prop
  | last {part : Part} {e : Expr} :
      Part.Describes part e →
      Chain.Lists (.last part) [.inl e]
  | more {part : Part} {op : String} {h : op ∈ binaryOperators} {rest : Chain} {e : Expr}
      {items : List (Expr ⊕ String)} :
      Part.Describes part e →
      Chain.Lists rest items →
      Chain.Lists (.more part op h rest) (.inl e :: .inr op :: items)

/-- The tree is ordered, and in order it has what the chain lists. -/
inductive Chain.Describes : Chain → Expr → Prop
  | intro {c : Chain} {e : Expr} :
      e.Ordered →
      Chain.Lists c e.inOrder →
      Chain.Describes c e

/-- Each of several chains describes its tree. -/
inductive Chain.DescribesAll : List Chain → List Expr → Prop
  | nil : Chain.DescribesAll [] []
  | cons {c : Chain} {cs : List Chain} {e : Expr} {es : List Expr} :
      Chain.Describes c e →
      Chain.DescribesAll cs es →
      Chain.DescribesAll (c :: cs) (e :: es)

end

mutual

/-- The tree of an atom with its calls and indices. -/
def Stem.tree : Stem → Expr
  | .atom a => a.tree
  | .call callee arguments => .call callee.tree (Chain.trees arguments)
  | .index left subscript => .index left.tree subscript.tree

/-- The tree of a part. -/
def Part.tree : Part → Expr
  | .stem s => s.tree
  | .unary op _ operand => .unary op operand.tree

/-- The tree of a chain, put together from its end. -/
def Chain.tree : Chain → Expr
  | .last part => part.tree
  | .more part op _ rest => Expr.prepend part.tree op rest.tree

/-- The trees of several chains. -/
def Chain.trees : List Chain → List Expr
  | [] => []
  | c :: rest => c.tree :: Chain.trees rest

end

end Chains

section Trees

theorem Part.isOperand_tree (part : Part) : part.tree.IsOperand := by
  intro left op right h
  cases part with
  | stem s =>
      cases s with
      | atom a => cases a <;> cases h
      | _ => cases h
  | unary => cases h

theorem Chain.ordered_tree : (c : Chain) → c.tree.Ordered
  | .last part => part.isOperand_tree.ordered
  | .more part _ _ rest => Expr.ordered_prepend part.isOperand_tree rest.ordered_tree

/-- Two ordered trees have the same in order only if they are the same. -/
theorem Chain.describes_iff_of_lists_iff {c : Chain}
    (h : ∀ items, c.Lists items ↔ items = c.tree.inOrder) (e : Expr) :
    c.Describes e ↔ e = c.tree := by
  constructor
  · rintro ⟨hordered, hlists⟩
    exact hordered.eq_of_inOrder_eq c.ordered_tree ((h _).mp hlists)
  · rintro rfl
    exact ⟨c.ordered_tree, (h _).mpr rfl⟩

mutual

theorem Stem.describes_iff : (s : Stem) → (e : Expr) → (s.Describes e ↔ e = s.tree)
  | .atom a, e => by
      constructor
      · rintro ⟨⟩
        rfl
      · rintro rfl
        exact .atom
  | .call callee arguments, e => by
      constructor
      · rintro (_ | ⟨hcallee, harguments⟩)
        rw [Stem.tree, (callee.describes_iff _).mp hcallee,
          (Chain.describesAll_iff arguments _).mp harguments]
      · rintro rfl
        exact .call ((callee.describes_iff _).mpr rfl) ((Chain.describesAll_iff arguments _).mpr rfl)
  | .index left subscript, e => by
      have hsubscript := Chain.describes_iff_of_lists_iff subscript.lists_iff
      constructor
      · rintro (_ | _ | ⟨hleft, hinside⟩)
        rw [Stem.tree, (left.describes_iff _).mp hleft, (hsubscript _).mp hinside]
      · rintro rfl
        exact .index ((left.describes_iff _).mpr rfl) ((hsubscript _).mpr rfl)

theorem Part.describes_iff : (part : Part) → (e : Expr) → (part.Describes e ↔ e = part.tree)
  | .stem s, e => by
      constructor
      · rintro ⟨h⟩
        exact (s.describes_iff e).mp h
      · rintro rfl
        exact .stem ((s.describes_iff _).mpr rfl)
  | .unary op _ operand, e => by
      constructor
      · rintro (_ | h)
        rw [Part.tree, (operand.describes_iff _).mp h]
      · rintro rfl
        exact .unary ((operand.describes_iff _).mpr rfl)

theorem Chain.lists_iff : (c : Chain) → (items : List (Expr ⊕ String)) →
    (c.Lists items ↔ items = c.tree.inOrder)
  | .last part, items => by
      rw [Chain.tree, part.isOperand_tree.inOrder]
      constructor
      · rintro ⟨h⟩
        rw [(part.describes_iff _).mp h]
      · rintro rfl
        exact .last ((part.describes_iff _).mpr rfl)
  | .more part op _ rest, items => by
      rw [Chain.tree, Expr.inOrder_prepend part.isOperand_tree]
      constructor
      · rintro (_ | ⟨hpart, hrest⟩)
        rw [(part.describes_iff _).mp hpart, (rest.lists_iff _).mp hrest]
      · rintro rfl
        exact .more ((part.describes_iff _).mpr rfl) ((rest.lists_iff _).mpr rfl)

theorem Chain.describesAll_iff : (cs : List Chain) → (es : List Expr) →
    (Chain.DescribesAll cs es ↔ es = Chain.trees cs)
  | [], es => by
      constructor
      · rintro ⟨⟩
        rfl
      · rintro rfl
        exact .nil
  | c :: cs, es => by
      have hc := Chain.describes_iff_of_lists_iff c.lists_iff
      constructor
      · rintro (_ | ⟨hfirst, hrest⟩)
        rw [Chain.trees, (hc _).mp hfirst, (Chain.describesAll_iff cs _).mp hrest]
      · rintro rfl
        exact .cons ((hc _).mpr rfl) ((Chain.describesAll_iff cs _).mpr rfl)

end

/-- A chain describes exactly one tree. -/
theorem Chain.describes_iff (c : Chain) (e : Expr) : c.Describes e ↔ e = c.tree :=
  describes_iff_of_lists_iff c.lists_iff e

end Trees

section Writing

theorem Atom.writes (a : Atom) (n : Nat) : Writes n (.expression a.tree) [a.lexeme] := by
  cases a with
  | ident name h => exact .ident
  | integer value numeral h hrange => exact .integer h
  | boolean value => exact .boolean
  | string text h => exact .string

theorem Atom.wellFormed_tree (a : Atom) : a.tree.wellFormed = true := by
  cases a with
  | ident name h => exact h
  | integer value numeral h hrange => simp [Atom.tree, Expr.wellFormed, hrange]
  | boolean value => rfl
  | string text h => exact decide_eq_true h

mutual

theorem Stem.solid : (s : Stem) → ∀ lexeme ∈ s.lexemes, Solid lexeme
  | .atom a => (a.writes 0).solid a.wellFormed_tree
  | .call callee arguments => by
      rw [Stem.lexemes, List.forall_mem_append]
      exact ⟨callee.solid, solid_enclosed (by decide) (by decide) (Chain.solidAll arguments)⟩
  | .index left subscript => by
      rw [Stem.lexemes, List.forall_mem_append]
      exact ⟨left.solid, solid_enclosed (by decide) (by decide) subscript.solid⟩

theorem Part.solid : (part : Part) → ∀ lexeme ∈ part.lexemes, Solid lexeme
  | .stem s => s.solid
  | .unary op h operand => by
      rw [Part.lexemes, List.forall_mem_cons]
      exact ⟨solid_of_unaryOperator h, operand.solid⟩

theorem Chain.solid : (c : Chain) → ∀ lexeme ∈ c.lexemes, Solid lexeme
  | .last part => part.solid
  | .more part op h rest => by
      rw [Chain.lexemes, List.forall_mem_append, List.forall_mem_cons]
      exact ⟨part.solid, solid_of_binaryOperator h, rest.solid⟩

theorem Chain.solidAll : (cs : List Chain) → ∀ lexeme ∈ Chain.lexemesAll cs, Solid lexeme
  | [] => by simp [Chain.lexemesAll]
  | [c] => c.solid
  | c :: next :: rest => by
      rw [Chain.lexemesAll, List.forall_mem_append, List.forall_mem_cons]
      exact ⟨c.solid, solid_fixed (by decide), Chain.solidAll (next :: rest)⟩

end

/-- Every chain can be written down: its lexemes are read as themselves wherever white space stands
between them. -/
theorem Chain.words_of_spaced (c : Chain) {text : String} (h : Spaced c.lexemes text.toList) :
    (Scanner.ofString text).words = c.lexemes.map wordOf := by
  rw [Scanner.words_eq]
  exact wordsOf_of_spaced h c.solid

end Writing

section Nesting

mutual

/-- How deep the expressions in brackets nest. -/
def Stem.nesting : Stem → Nat
  | .atom _ => 0
  | .call callee arguments => max callee.nesting (Chain.nestingAll arguments + 1)
  | .index left subscript => max left.nesting (subscript.nesting + 1)

/-- How deep the operands of operators in front nest. -/
def Part.nesting : Part → Nat
  | .stem s => s.nesting
  | .unary _ _ operand => operand.nesting + 1

/-- How deep the expressions of a chain nest, at most: its operators come in four levels. -/
def Chain.nesting : Chain → Nat
  | .last part => part.nesting + 4
  | .more part _ _ rest => max (part.nesting + 4) rest.nesting

/-- How deep the deepest of several chains nests. -/
def Chain.nestingAll : List Chain → Nat
  | [] => 0
  | c :: rest => max c.nesting (Chain.nestingAll rest)

end

theorem Chain.four_le_nesting (c : Chain) : 4 ≤ c.nesting := by
  cases c with
  | last part =>
      rw [Chain.nesting]
      omega
  | more part op h rest =>
      rw [Chain.nesting]
      omega

end Nesting

end Scriptlet
