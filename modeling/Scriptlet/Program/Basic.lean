/-!
# Programs

The phrases of the language: expressions, statements and programs.

**Operators** are kept as the text they were written with, so that a phrase that was built by hand
may hold an operator the language does not have.

**Foreign objects.**  A phrase built by hand may also hold something that is not a phrase at all,
known only by the name of its type.  It has no source text and no tree, and evaluating it fails.

**Equality** of phrases is structural and decidable: `Expr.same_iff` and `Stmt.same_iff`.  The
pairs of a hash literal are compared in order.
-/

namespace Scriptlet

mutual

/-- Expressions. -/
inductive Expr where
  | ident (name : String)
  | integer (value : Int)
  | boolean (value : Bool)
  | string (value : String)
  | unary (op : String) (right : Expr)
  | binary (left : Expr) (op : String) (right : Expr)
  | conditional (condition : Expr) (consequence : List Stmt) (alternative : Option (List Stmt))
  | function (parameters : List String) (body : List Stmt)
  | call (callee : Expr) (arguments : List Expr)
  | array (elements : List Expr)
  | index (left : Expr) (subscript : Expr)
  | hash (pairs : List (Expr × Expr))
  | foreign (typeName : String)

/-- Statements. -/
inductive Stmt where
  | bind (name : String) (value : Expr)
  | ret (value : Expr)
  | expr (expression : Expr)
  | block (body : List Stmt)

end

/-- A block is a sequence of statements. -/
abbrev Block := List Stmt

/-- A program is a sequence of statements as well, but ends a `return`. -/
structure Program where
  statements : Block

/-- Any phrase. -/
inductive Node where
  | program (p : Program)
  | statement (s : Stmt)
  | expression (e : Expr)

mutual

/-- Whether two expressions are the same phrase. -/
def Expr.same : Expr → Expr → Bool
  | .ident a, .ident b => a == b
  | .integer a, .integer b => a == b
  | .boolean a, .boolean b => a == b
  | .string a, .string b => a == b
  | .unary o a, .unary p b => o == p && a.same b
  | .binary a o b, .binary c p d => a.same c && o == p && b.same d
  | .conditional a t none, .conditional b u none => a.same b && Stmt.sameAll t u
  | .conditional a t (some e), .conditional b u (some f) =>
      a.same b && Stmt.sameAll t u && Stmt.sameAll e f
  | .function ps a, .function qs b => ps == qs && Stmt.sameAll a b
  | .call f as, .call g bs => f.same g && Expr.sameAll as bs
  | .array as, .array bs => Expr.sameAll as bs
  | .index a i, .index b j => a.same b && i.same j
  | .hash ps, .hash qs => Expr.samePairs ps qs
  | .foreign a, .foreign b => a == b
  | _, _ => false

/-- Whether two statements are the same phrase. -/
def Stmt.same : Stmt → Stmt → Bool
  | .bind n a, .bind m b => n == m && a.same b
  | .ret a, .ret b => a.same b
  | .expr a, .expr b => a.same b
  | .block as, .block bs => Stmt.sameAll as bs
  | _, _ => false

/-- Whether two blocks are the same, statement by statement. -/
def Stmt.sameAll : List Stmt → List Stmt → Bool
  | [], [] => true
  | a :: as, b :: bs => a.same b && Stmt.sameAll as bs
  | _, _ => false

/-- Whether two lists of expressions are the same, one by one. -/
def Expr.sameAll : List Expr → List Expr → Bool
  | [], [] => true
  | a :: as, b :: bs => a.same b && Expr.sameAll as bs
  | _, _ => false

/-- Whether two lists of pairs are the same, one by one. -/
def Expr.samePairs : List (Expr × Expr) → List (Expr × Expr) → Bool
  | [], [] => true
  | (k, v) :: as, (l, w) :: bs => k.same l && v.same w && Expr.samePairs as bs
  | _, _ => false

end

mutual

theorem Expr.same_iff : (a b : Expr) → (a.same b = true ↔ a = b)
  | .ident a, b => by cases b <;> simp [Expr.same]
  | .integer a, b => by cases b <;> simp [Expr.same]
  | .boolean a, b => by cases b <;> simp [Expr.same]
  | .string a, b => by cases b <;> simp [Expr.same]
  | .unary o a, b => by cases b <;> simp [Expr.same, Expr.same_iff a]
  | .binary a o c, b => by
      cases b <;> simp [Expr.same, Expr.same_iff a, Expr.same_iff c, and_assoc]
  | .conditional a t none, b => by
      cases b with
      | conditional d u f =>
          cases f <;> simp [Expr.same, Expr.same_iff a, Stmt.sameAll_iff t]
      | _ => simp [Expr.same]
  | .conditional a t (some e), b => by
      cases b with
      | conditional d u f =>
          cases f <;>
            simp [Expr.same, Expr.same_iff a, Stmt.sameAll_iff t, Stmt.sameAll_iff e, and_assoc]
      | _ => simp [Expr.same]
  | .function ps e, b => by cases b <;> simp [Expr.same, Stmt.sameAll_iff e]
  | .call f as, b => by cases b <;> simp [Expr.same, Expr.same_iff f, Expr.sameAll_iff as]
  | .array as, b => by cases b <;> simp [Expr.same, Expr.sameAll_iff as]
  | .index a i, b => by cases b <;> simp [Expr.same, Expr.same_iff a, Expr.same_iff i]
  | .hash ps, b => by cases b <;> simp [Expr.same, Expr.samePairs_iff ps]
  | .foreign a, b => by cases b <;> simp [Expr.same]

theorem Stmt.same_iff : (a b : Stmt) → (a.same b = true ↔ a = b)
  | .bind n a, b => by cases b <;> simp [Stmt.same, Expr.same_iff a]
  | .ret a, b => by cases b <;> simp [Stmt.same, Expr.same_iff a]
  | .expr a, b => by cases b <;> simp [Stmt.same, Expr.same_iff a]
  | .block as, b => by cases b <;> simp [Stmt.same, Stmt.sameAll_iff as]

theorem Stmt.sameAll_iff : (a b : List Stmt) → (Stmt.sameAll a b = true ↔ a = b)
  | [], b => by cases b <;> simp [Stmt.sameAll]
  | a :: as, b => by cases b <;> simp [Stmt.sameAll, Stmt.same_iff a, Stmt.sameAll_iff as]

theorem Expr.sameAll_iff : (a b : List Expr) → (Expr.sameAll a b = true ↔ a = b)
  | [], b => by cases b <;> simp [Expr.sameAll]
  | a :: as, b => by cases b <;> simp [Expr.sameAll, Expr.same_iff a, Expr.sameAll_iff as]

theorem Expr.samePairs_iff :
    (a b : List (Expr × Expr)) → (Expr.samePairs a b = true ↔ a = b)
  | [], b => by cases b <;> simp [Expr.samePairs]
  | (k, v) :: as, b => by
      cases b with
      | nil => simp [Expr.samePairs]
      | cons p bs =>
          cases p
          simp [Expr.samePairs, Expr.same_iff k, Expr.same_iff v, Expr.samePairs_iff as,
            and_assoc]

end

instance : DecidableEq Expr := fun a b => decidable_of_iff _ (Expr.same_iff a b)

instance : DecidableEq Stmt := fun a b => decidable_of_iff _ (Stmt.same_iff a b)

deriving instance DecidableEq for Program

deriving instance DecidableEq for Node

end Scriptlet
