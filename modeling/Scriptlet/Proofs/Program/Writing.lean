import Scriptlet.Parser.Grammar
import Scriptlet.Proofs.Program.WellFormed
import Scriptlet.Proofs.Scanner.Spelling

/-!
# Writing programs down

How a phrase is written as a sequence of lexemes.

**Form.**  `Writes n φ lexemes`: the phrase `φ` can be written as the lexemes, with expressions nested
at most `n` deep.  A phrase can be written in many ways: an expression may stand in any number of
parentheses, an operator with its operands stands in at least one pair, a numeral may have leading
zeros, and a comma may follow the last pair of a hash literal.  Every statement ends in a semicolon.

**Nesting.**  What stands inside brackets, and what follows an operator, is one level deeper; what a
call or an index is applied to, and the left operand of an operator, is not.

**Results.**
* `Writes.mono`: what can be written with less room for nesting can be written with more.
* `Writes.solid`: the lexemes of a well-formed phrase are solid.
-/

namespace Scriptlet

/-- What is written down.  An operation is an operator with its operands, before it is put into
parentheses. -/
inductive Form where
  | operation (e : Expr)
  | expression (e : Expr)
  | expressions (es : List Expr)
  | pairs (ps : List (Expr × Expr))
  | statement (s : Stmt)
  | statements (body : Block)

/-- Whether what is written down is well-formed. -/
def Form.wellFormed : Form → Bool
  | operation e => e.wellFormed
  | expression e => e.wellFormed
  | expressions es => Expr.wellFormedAll es
  | pairs ps => Expr.wellFormedPairs ps
  | statement s => s.wellFormed
  | statements body => Stmt.wellFormedAll body

/-- A run of digits that denotes a number, not too long to be read. -/
def IsNumeral (numeral : String) (value : Nat) : Prop :=
  numeral ≠ "" ∧ numeral.toList.all isDigit ∧ numeral.length ≤ Parser.longestNumeral ∧
    Nat.ofDigitChars 10 numeral.toList 0 = value

instance (numeral : String) (value : Nat) : Decidable (IsNumeral numeral value) :=
  inferInstanceAs (Decidable (_ ∧ _ ∧ _ ∧ _))

section Brackets

variable (lexemes : List String)

/-- In parentheses. -/
def parenthesized : List String :=
  "(" :: (lexemes ++ [")"])

/-- In brackets. -/
def bracketed : List String :=
  "[" :: (lexemes ++ ["]"])

/-- In braces. -/
def braced : List String :=
  "\x7b" :: (lexemes ++ ["\x7d"])

end Brackets

inductive Writes : Nat → Form → List String → Prop
  | ident {n : Nat} {name : String} :
      Writes n (.expression (.ident name)) [name]
  | integer {n value : Nat} {numeral : String} :
      IsNumeral numeral value →
      Writes n (.expression (.integer value)) [numeral]
  | boolean {n : Nat} {value : Bool} :
      Writes n (.expression (.boolean value)) [if value then "true" else "false"]
  | string {n : Nat} {text : String} :
      Writes n (.expression (.string text)) ["\"" ++ text ++ "\""]
  | unary {n : Nat} {op : String} {right : Expr} {rights : List String} :
      Writes n (.expression right) rights →
      Writes (n + 1) (.operation (.unary op right)) (op :: rights)
  | binary {n : Nat} {op : String} {left right : Expr} {lefts rights : List String} :
      Writes (n + 1) (.expression left) lefts →
      Writes n (.expression right) rights →
      Writes (n + 1) (.operation (.binary left op right)) (lefts ++ op :: rights)
  | operation {n : Nat} {e : Expr} {lexemes : List String} :
      Writes n (.operation e) lexemes →
      Writes (n + 1) (.expression e) (parenthesized lexemes)
  | grouped {n : Nat} {e : Expr} {lexemes : List String} :
      Writes n (.expression e) lexemes →
      Writes (n + 1) (.expression e) (parenthesized lexemes)
  | conditional {n : Nat} {condition : Expr} {body : Block} {conditions lexemes : List String} :
      Writes n (.expression condition) conditions →
      Writes n (.statements body) lexemes →
      Writes (n + 1) (.expression (.conditional condition body none))
        ("if" :: parenthesized conditions ++ braced lexemes)
  | alternative {n : Nat} {condition : Expr} {body other : Block}
      {conditions lexemes others : List String} :
      Writes n (.expression condition) conditions →
      Writes n (.statements body) lexemes →
      Writes n (.statements other) others →
      Writes (n + 1) (.expression (.conditional condition body (some other)))
        ("if" :: parenthesized conditions ++ braced lexemes ++ "else" :: braced others)
  | function {n : Nat} {names : List String} {body : Block} {lexemes : List String} :
      Writes n (.statements body) lexemes →
      Writes (n + 1) (.expression (.function names body))
        ("fn" :: parenthesized (names.intersperse ",") ++ braced lexemes)
  | call {n : Nat} {callee : Expr} {es : List Expr} {callees lexemes : List String} :
      Writes (n + 1) (.expression callee) callees →
      Writes n (.expressions es) lexemes →
      Writes (n + 1) (.expression (.call callee es)) (callees ++ parenthesized lexemes)
  | index {n : Nat} {left subscript : Expr} {lefts lexemes : List String} :
      Writes (n + 1) (.expression left) lefts →
      Writes n (.expression subscript) lexemes →
      Writes (n + 1) (.expression (.index left subscript)) (lefts ++ bracketed lexemes)
  | array {n : Nat} {es : List Expr} {lexemes : List String} :
      Writes n (.expressions es) lexemes →
      Writes (n + 1) (.expression (.array es)) (bracketed lexemes)
  | hash {n : Nat} {ps : List (Expr × Expr)} {lexemes : List String} :
      Writes n (.pairs ps) lexemes →
      Writes (n + 1) (.expression (.hash ps)) (braced lexemes)
  | noExpressions {n : Nat} :
      Writes n (.expressions []) []
  | lastExpression {n : Nat} {e : Expr} {lexemes : List String} :
      Writes n (.expression e) lexemes →
      Writes n (.expressions [e]) lexemes
  | moreExpressions {n : Nat} {e next : Expr} {es : List Expr} {lexemes more : List String} :
      Writes n (.expression e) lexemes →
      Writes n (.expressions (next :: es)) more →
      Writes n (.expressions (e :: next :: es)) (lexemes ++ "," :: more)
  | noPairs {n : Nat} :
      Writes n (.pairs []) []
  | lastPair {n : Nat} {key value : Expr} {keys values : List String} :
      Writes n (.expression key) keys →
      Writes n (.expression value) values →
      Writes n (.pairs [(key, value)]) (keys ++ ":" :: values)
  | morePairs {n : Nat} {key value : Expr} {ps : List (Expr × Expr)}
      {keys values more : List String} :
      Writes n (.expression key) keys →
      Writes n (.expression value) values →
      Writes n (.pairs ps) more →
      Writes n (.pairs ((key, value) :: ps)) (keys ++ ":" :: (values ++ "," :: more))
  | bind {n : Nat} {name : String} {value : Expr} {lexemes : List String} :
      Writes n (.expression value) lexemes →
      Writes n (.statement (.bind name value)) ("let" :: name :: "=" :: (lexemes ++ [";"]))
  | ret {n : Nat} {value : Expr} {lexemes : List String} :
      Writes n (.expression value) lexemes →
      Writes n (.statement (.ret value)) ("return" :: (lexemes ++ [";"]))
  | expr {n : Nat} {e : Expr} {lexemes : List String} :
      Writes n (.expression e) lexemes →
      Writes n (.statement (.expr e)) (lexemes ++ [";"])
  | noStatements {n : Nat} :
      Writes n (.statements []) []
  | moreStatements {n : Nat} {s : Stmt} {body : Block} {lexemes more : List String} :
      Writes n (.statement s) lexemes →
      Writes n (.statements body) more →
      Writes n (.statements (s :: body)) (lexemes ++ more)

section Room

variable {n m : Nat} {φ : Form} {lexemes : List String}

theorem Writes.succ (h : Writes n φ lexemes) : Writes (n + 1) φ lexemes := by
  induction h with
  | ident => exact .ident
  | integer hnumeral => exact .integer hnumeral
  | boolean => exact .boolean
  | string => exact .string
  | unary _ ih => exact .unary ih
  | binary _ _ ihleft ihright => exact .binary ihleft ihright
  | operation _ ih => exact .operation ih
  | grouped _ ih => exact .grouped ih
  | conditional _ _ ihcondition ihbody => exact .conditional ihcondition ihbody
  | alternative _ _ _ ihcondition ihbody ihother => exact .alternative ihcondition ihbody ihother
  | function _ ih => exact .function ih
  | call _ _ ihcallee ih => exact .call ihcallee ih
  | index _ _ ihleft ih => exact .index ihleft ih
  | array _ ih => exact .array ih
  | hash _ ih => exact .hash ih
  | noExpressions => exact .noExpressions
  | lastExpression _ ih => exact .lastExpression ih
  | moreExpressions _ _ ih ihmore => exact .moreExpressions ih ihmore
  | noPairs => exact .noPairs
  | lastPair _ _ ihkey ihvalue => exact .lastPair ihkey ihvalue
  | morePairs _ _ _ ihkey ihvalue ihmore => exact .morePairs ihkey ihvalue ihmore
  | bind _ ih => exact .bind ih
  | ret _ ih => exact .ret ih
  | expr _ ih => exact .expr ih
  | noStatements => exact .noStatements
  | moreStatements _ _ ih ihmore => exact .moreStatements ih ihmore

/-- What can be written with less room for nesting can be written with more. -/
theorem Writes.mono (h : Writes n φ lexemes) (hle : n ≤ m) : Writes m φ lexemes := by
  induction hle with
  | refl => exact h
  | step _ ih => exact ih.succ

end Room

section Lexemes

theorem solid_of_isName {name : String} (h : isName name = true) :
    Solid name ∧ wordOf name = ⟨.ident, name⟩ := by
  simp only [isName, Bool.and_eq_true, decide_eq_true_eq, ne_eq] at h
  obtain ⟨⟨hne, hletters⟩, hkind⟩ := h
  obtain ⟨hsolid, hword⟩ := solid_of_letters hne hletters
  rw [hkind] at hword
  exact ⟨hsolid, hword⟩

theorem solid_of_isNumeral {numeral : String} {value : Nat} (h : IsNumeral numeral value) :
    Solid numeral ∧ wordOf numeral = ⟨.int, numeral⟩ := by
  obtain ⟨hne, hdigits, -, -⟩ := h
  exact solid_of_digits hne hdigits

theorem solid_of_unaryOperator {op : String} (h : op ∈ unaryOperators) : Solid op := by
  have hsub : ∀ lexeme ∈ unaryOperators, lexeme ∈ fixedLexemes := by decide
  exact solid_fixed (hsub op h)

theorem solid_of_binaryOperator {op : String} (h : op ∈ binaryOperators) : Solid op := by
  have hsub : ∀ lexeme ∈ binaryOperators, lexeme ∈ fixedLexemes := by decide
  exact solid_fixed (hsub op h)

variable {lexemes : List String}

theorem solid_enclosed {opening closing : String} (hopening : opening ∈ fixedLexemes)
    (hclosing : closing ∈ fixedLexemes) (h : ∀ lexeme ∈ lexemes, Solid lexeme) :
    ∀ lexeme ∈ opening :: (lexemes ++ [closing]), Solid lexeme := by
  simp only [List.forall_mem_cons, List.forall_mem_append]
  exact ⟨solid_fixed hopening, h, solid_fixed hclosing, by simp⟩

theorem solid_intersperse {names : List String} (h : names.all isName = true) :
    ∀ lexeme ∈ names.intersperse ",", Solid lexeme := by
  induction names with
  | nil => simp
  | cons name rest ih =>
      rw [List.all_cons, Bool.and_eq_true] at h
      have hname : Solid name := (solid_of_isName h.1).1
      cases rest with
      | nil =>
          rw [List.intersperse_singleton, List.forall_mem_singleton]
          exact hname
      | cons next others =>
          rw [List.intersperse_cons_cons, List.forall_mem_cons, List.forall_mem_cons]
          exact ⟨hname, solid_fixed (by decide), ih h.2⟩

end Lexemes

/-- Every lexeme of a well-formed phrase is solid. -/
theorem Writes.solid {n : Nat} {φ : Form} {lexemes : List String} (h : Writes n φ lexemes)
    (hφ : φ.wellFormed = true) : ∀ lexeme ∈ lexemes, Solid lexeme := by
  induction h with
  | ident =>
      rw [List.forall_mem_singleton]
      exact (solid_of_isName hφ).1
  | integer hnumeral =>
      rw [List.forall_mem_singleton]
      exact (solid_of_isNumeral hnumeral).1
  | @boolean n value =>
      rw [List.forall_mem_singleton]
      cases value with
      | false => exact solid_fixed (by decide)
      | true => exact solid_fixed (by decide)
  | string =>
      rw [List.forall_mem_singleton]
      exact (solid_quoted (of_decide_eq_true hφ)).1
  | unary _ ih =>
      simp only [Form.wellFormed, Expr.wellFormed, Bool.and_eq_true, decide_eq_true_eq] at hφ
      rw [List.forall_mem_cons]
      exact ⟨solid_of_unaryOperator hφ.1, ih hφ.2⟩
  | binary _ _ ihleft ihright =>
      simp only [Form.wellFormed, Expr.wellFormed, Bool.and_eq_true, decide_eq_true_eq] at hφ
      obtain ⟨⟨hop, hleft⟩, hright⟩ := hφ
      rw [List.forall_mem_append, List.forall_mem_cons]
      exact ⟨ihleft hleft, solid_of_binaryOperator hop, ihright hright⟩
  | operation _ ih => exact solid_enclosed (by decide) (by decide) (ih hφ)
  | grouped _ ih => exact solid_enclosed (by decide) (by decide) (ih hφ)
  | conditional _ _ ihcondition ihbody =>
      simp only [Form.wellFormed, Expr.wellFormed, Bool.and_eq_true] at hφ
      obtain ⟨⟨hcondition, hbody⟩, -⟩ := hφ
      rw [List.forall_mem_append, List.forall_mem_cons]
      refine ⟨⟨solid_fixed (by decide), ?_⟩, ?_⟩
      · exact solid_enclosed (by decide) (by decide) (ihcondition hcondition)
      · exact solid_enclosed (by decide) (by decide) (ihbody hbody)
  | alternative _ _ _ ihcondition ihbody ihother =>
      simp only [Form.wellFormed, Expr.wellFormed, Bool.and_eq_true] at hφ
      obtain ⟨⟨hcondition, hbody⟩, hother⟩ := hφ
      rw [List.forall_mem_append, List.forall_mem_append, List.forall_mem_cons,
        List.forall_mem_cons]
      refine ⟨⟨⟨solid_fixed (by decide), ?_⟩, ?_⟩, solid_fixed (by decide), ?_⟩
      · exact solid_enclosed (by decide) (by decide) (ihcondition hcondition)
      · exact solid_enclosed (by decide) (by decide) (ihbody hbody)
      · exact solid_enclosed (by decide) (by decide) (ihother hother)
  | function _ ih =>
      simp only [Form.wellFormed, Expr.wellFormed, Bool.and_eq_true] at hφ
      rw [List.forall_mem_append, List.forall_mem_cons]
      refine ⟨⟨solid_fixed (by decide), ?_⟩, ?_⟩
      · exact solid_enclosed (by decide) (by decide) (solid_intersperse hφ.1)
      · exact solid_enclosed (by decide) (by decide) (ih hφ.2)
  | call _ _ ihcallee ih =>
      simp only [Form.wellFormed, Expr.wellFormed, Bool.and_eq_true] at hφ
      rw [List.forall_mem_append]
      exact ⟨ihcallee hφ.1, solid_enclosed (by decide) (by decide) (ih hφ.2)⟩
  | index _ _ ihleft ih =>
      simp only [Form.wellFormed, Expr.wellFormed, Bool.and_eq_true] at hφ
      rw [List.forall_mem_append]
      exact ⟨ihleft hφ.1, solid_enclosed (by decide) (by decide) (ih hφ.2)⟩
  | array _ ih => exact solid_enclosed (by decide) (by decide) (ih hφ)
  | hash _ ih =>
      simp only [Form.wellFormed, Expr.wellFormed, Bool.and_eq_true] at hφ
      exact solid_enclosed (by decide) (by decide) (ih hφ.2)
  | noExpressions => simp
  | lastExpression _ ih =>
      simp only [Form.wellFormed, Expr.wellFormedAll, Bool.and_true] at hφ
      exact ih hφ
  | moreExpressions _ _ ih ihmore =>
      simp only [Form.wellFormed, Expr.wellFormedAll, Bool.and_eq_true] at hφ
      rw [List.forall_mem_append, List.forall_mem_cons]
      refine ⟨ih hφ.1, solid_fixed (by decide), ihmore ?_⟩
      simp only [Form.wellFormed, Expr.wellFormedAll, Bool.and_eq_true]
      exact hφ.2
  | noPairs => simp
  | lastPair _ _ ihkey ihvalue =>
      simp only [Form.wellFormed, Expr.wellFormedPairs, Bool.and_eq_true] at hφ
      rw [List.forall_mem_append, List.forall_mem_cons]
      exact ⟨ihkey hφ.1.1, solid_fixed (by decide), ihvalue hφ.1.2⟩
  | morePairs _ _ _ ihkey ihvalue ihmore =>
      simp only [Form.wellFormed, Expr.wellFormedPairs, Bool.and_eq_true] at hφ
      rw [List.forall_mem_append, List.forall_mem_cons, List.forall_mem_append,
        List.forall_mem_cons]
      exact ⟨ihkey hφ.1.1, solid_fixed (by decide), ihvalue hφ.1.2, solid_fixed (by decide),
        ihmore hφ.2⟩
  | bind _ ih =>
      simp only [Form.wellFormed, Stmt.wellFormed, Bool.and_eq_true] at hφ
      rw [List.forall_mem_cons, List.forall_mem_cons, List.forall_mem_cons, List.forall_mem_append,
        List.forall_mem_singleton]
      exact ⟨solid_fixed (by decide), (solid_of_isName hφ.1).1, solid_fixed (by decide), ih hφ.2,
        solid_fixed (by decide)⟩
  | ret _ ih =>
      rw [List.forall_mem_cons, List.forall_mem_append, List.forall_mem_singleton]
      exact ⟨solid_fixed (by decide), ih hφ, solid_fixed (by decide)⟩
  | expr _ ih =>
      rw [List.forall_mem_append, List.forall_mem_singleton]
      exact ⟨ih hφ, solid_fixed (by decide)⟩
  | noStatements => simp
  | moreStatements _ _ ih ihmore =>
      simp only [Form.wellFormed, Stmt.wellFormedAll, Bool.and_eq_true] at hφ
      rw [List.forall_mem_append]
      exact ⟨ih hφ.1, ihmore hφ.2⟩

end Scriptlet
