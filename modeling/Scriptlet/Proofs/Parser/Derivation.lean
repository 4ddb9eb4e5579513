import Scriptlet.Integer
import Scriptlet.Table
import Scriptlet.Program.Basic
import Scriptlet.Proofs.Scanner.Words

/-!
# Derivations

The grammar of the language, as an inductive relation between phrases and words.

**Form.**  `Derives φ ws rest`: the words `ws` start with a derivation of the phrase `φ`, and `rest`
is what comes after it.  A rule takes each of its words off the front, so a derivation uses the words
between `ws` and `rest` once each and in order (`Derives.uses`).

**The rules.**

* program  `= stmt*`
* stmt  `= LET IDENT '=' expr [';'] | RETURN expr [';'] | expr [';']`
* block  `=` an opening brace, `stmt*`, and a closing brace or the end of the words
* expr  `= IDENT | INT | STRING | TRUE | FALSE | ('!' | '-') expr | '(' expr ')'`
  `| IF '(' expr ')' block [ELSE block] | FN '(' [IDENT (',' IDENT)*] ')' block`
  `| '[' [expr (',' expr)*] ']' |` pairs in braces `| expr binop expr`
  `| expr '(' [expr (',' expr)*] ')' | expr '[' expr ']'`
* pairs  `= [expr ':' expr (',' expr ':' expr)* [',']]`

The grammar leaves open how operators bind; a numeral must denote an integer of the language.
Repeated keys of a hash literal are merged: the first place, the last value.
-/

namespace Scriptlet

namespace Parser

/-- What is derived.  Of expressions between commas and of parameters there is at least one. -/
inductive Phrase where
  | statements (body : Block)
  | statement (s : Stmt)
  | block (body : Block)
  | expression (e : Expr)
  | expressions (es : List Expr)
  | parameters (names : List String)
  | pairs (ps : List (Expr × Expr))

/-- The operators between two operands. -/
def isBinaryOperator (kind : TokenKind) : Bool :=
  kind ∈ [.plus, .minus, .asterisk, .slash, .lt, .gt, .eq, .notEq]

/-- The pairs of a hash literal, in the order written, put into one table after the other. -/
def mergedPairs (read : List (Expr × Expr)) (ps : List (Expr × Expr)) : List (Expr × Expr) :=
  ps.foldl (fun table p => Table.put p.1 p.2 table) read

/-- A semicolon may stand between `ws` and `rest`, and nothing else. -/
def Ended (ws rest : List Word) : Prop :=
  rest = ws ∨ ∃ text, ws = ⟨.semicolon, text⟩ :: rest

inductive Derives : Phrase → List Word → List Word → Prop
  | done {ws : List Word} :
      Derives (.statements []) ws ws
  | more {s : Stmt} {body : Block} {ws mid rest : List Word} :
      Derives (.statement s) ws mid →
      Derives (.statements body) mid rest →
      Derives (.statements (s :: body)) ws rest
  | bind {name letText equalsText : String} {e : Expr} {ws mid rest : List Word} :
      Derives (.expression e) ws mid →
      Ended mid rest →
      Derives (.statement (.bind name e))
        (⟨.letWord, letText⟩ :: ⟨.ident, name⟩ :: ⟨.assign, equalsText⟩ :: ws) rest
  | ret {returnText : String} {e : Expr} {ws mid rest : List Word} :
      Derives (.expression e) ws mid →
      Ended mid rest →
      Derives (.statement (.ret e)) (⟨.returnWord, returnText⟩ :: ws) rest
  | expr {e : Expr} {ws mid rest : List Word} :
      Derives (.expression e) ws mid →
      Ended mid rest →
      Derives (.statement (.expr e)) ws rest
  | closed {openText closeText : String} {body : Block} {ws rest : List Word} :
      Derives (.statements body) ws (⟨.rbrace, closeText⟩ :: rest) →
      Derives (.block body) (⟨.lbrace, openText⟩ :: ws) rest
  | unclosed {openText : String} {body : Block} {ws : List Word} :
      Derives (.statements body) ws [] →
      Derives (.block body) (⟨.lbrace, openText⟩ :: ws) []
  | ident {name : String} {rest : List Word} :
      Derives (.expression (.ident name)) (⟨.ident, name⟩ :: rest) rest
  | integer {numeral : String} {rest : List Word} :
      (Nat.ofDigitChars 10 numeral.toList 0 : Int) ≤ maxInteger →
      Derives (.expression (.integer (Nat.ofDigitChars 10 numeral.toList 0)))
        (⟨.int, numeral⟩ :: rest) rest
  | string {text : String} {rest : List Word} :
      Derives (.expression (.string text)) (⟨.string, text⟩ :: rest) rest
  | true {text : String} {rest : List Word} :
      Derives (.expression (.boolean true)) (⟨.trueWord, text⟩ :: rest) rest
  | false {text : String} {rest : List Word} :
      Derives (.expression (.boolean false)) (⟨.falseWord, text⟩ :: rest) rest
  | unary {op : Word} {e : Expr} {ws rest : List Word} :
      op.kind = .bang ∨ op.kind = .minus →
      Derives (.expression e) ws rest →
      Derives (.expression (.unary op.text e)) (op :: ws) rest
  | grouped {openText closeText : String} {e : Expr} {ws rest : List Word} :
      Derives (.expression e) ws (⟨.rparen, closeText⟩ :: rest) →
      Derives (.expression e) (⟨.lparen, openText⟩ :: ws) rest
  | conditional {ifText openText closeText : String} {e : Expr} {body : Block}
      {ws mid rest : List Word} :
      Derives (.expression e) ws (⟨.rparen, closeText⟩ :: mid) →
      Derives (.block body) mid rest →
      Derives (.expression (.conditional e body none))
        (⟨.ifWord, ifText⟩ :: ⟨.lparen, openText⟩ :: ws) rest
  | alternative {ifText openText closeText elseText : String} {e : Expr} {body other : Block}
      {ws mid after rest : List Word} :
      Derives (.expression e) ws (⟨.rparen, closeText⟩ :: mid) →
      Derives (.block body) mid (⟨.elseWord, elseText⟩ :: after) →
      Derives (.block other) after rest →
      Derives (.expression (.conditional e body (some other)))
        (⟨.ifWord, ifText⟩ :: ⟨.lparen, openText⟩ :: ws) rest
  | constant {fnText openText closeText : String} {body : Block} {ws rest : List Word} :
      Derives (.block body) ws rest →
      Derives (.expression (.function [] body))
        (⟨.functionWord, fnText⟩ :: ⟨.lparen, openText⟩ :: ⟨.rparen, closeText⟩ :: ws) rest
  | function {fnText openText closeText : String} {names : List String} {body : Block}
      {ws mid rest : List Word} :
      Derives (.parameters names) ws (⟨.rparen, closeText⟩ :: mid) →
      Derives (.block body) mid rest →
      Derives (.expression (.function names body))
        (⟨.functionWord, fnText⟩ :: ⟨.lparen, openText⟩ :: ws) rest
  | emptyArray {openText closeText : String} {rest : List Word} :
      Derives (.expression (.array [])) (⟨.lbracket, openText⟩ :: ⟨.rbracket, closeText⟩ :: rest)
        rest
  | array {openText closeText : String} {es : List Expr} {ws rest : List Word} :
      Derives (.expressions es) ws (⟨.rbracket, closeText⟩ :: rest) →
      Derives (.expression (.array es)) (⟨.lbracket, openText⟩ :: ws) rest
  | hash {openText closeText : String} {ps : List (Expr × Expr)} {ws rest : List Word} :
      Derives (.pairs ps) ws (⟨.rbrace, closeText⟩ :: rest) →
      Derives (.expression (.hash (mergedPairs [] ps))) (⟨.lbrace, openText⟩ :: ws) rest
  | binary {op : Word} {left right : Expr} {ws mid rest : List Word} :
      Derives (.expression left) ws (op :: mid) →
      isBinaryOperator op.kind →
      Derives (.expression right) mid rest →
      Derives (.expression (.binary left op.text right)) ws rest
  | emptyCall {openText closeText : String} {callee : Expr} {ws rest : List Word} :
      Derives (.expression callee) ws
        (⟨.lparen, openText⟩ :: ⟨.rparen, closeText⟩ :: rest) →
      Derives (.expression (.call callee [])) ws rest
  | call {openText closeText : String} {callee : Expr} {es : List Expr} {ws mid rest : List Word} :
      Derives (.expression callee) ws (⟨.lparen, openText⟩ :: mid) →
      Derives (.expressions es) mid (⟨.rparen, closeText⟩ :: rest) →
      Derives (.expression (.call callee es)) ws rest
  | index {openText closeText : String} {left subscript : Expr} {ws mid rest : List Word} :
      Derives (.expression left) ws (⟨.lbracket, openText⟩ :: mid) →
      Derives (.expression subscript) mid (⟨.rbracket, closeText⟩ :: rest) →
      Derives (.expression (.index left subscript)) ws rest
  | lastExpression {e : Expr} {ws rest : List Word} :
      Derives (.expression e) ws rest →
      Derives (.expressions [e]) ws rest
  | moreExpressions {commaText : String} {e : Expr} {es : List Expr} {ws mid rest : List Word} :
      Derives (.expression e) ws (⟨.comma, commaText⟩ :: mid) →
      Derives (.expressions es) mid rest →
      Derives (.expressions (e :: es)) ws rest
  | lastParameter {name : String} {rest : List Word} :
      Derives (.parameters [name]) (⟨.ident, name⟩ :: rest) rest
  | moreParameters {commaText name : String} {names : List String} {ws rest : List Word} :
      Derives (.parameters names) ws rest →
      Derives (.parameters (name :: names)) (⟨.ident, name⟩ :: ⟨.comma, commaText⟩ :: ws) rest
  | noPairs {ws : List Word} :
      Derives (.pairs []) ws ws
  | lastPair {colonText : String} {key value : Expr} {ws mid rest : List Word} :
      Derives (.expression key) ws (⟨.colon, colonText⟩ :: mid) →
      Derives (.expression value) mid rest →
      Derives (.pairs [(key, value)]) ws rest
  | morePairs {colonText commaText : String} {key value : Expr} {ps : List (Expr × Expr)}
      {ws mid after rest : List Word} :
      Derives (.expression key) ws (⟨.colon, colonText⟩ :: mid) →
      Derives (.expression value) mid (⟨.comma, commaText⟩ :: after) →
      Derives (.pairs ps) after rest →
      Derives (.pairs ((key, value) :: ps)) ws rest

/-- The words from `ws` up to `rest`, none of them illegal. -/
def Uses (ws rest : List Word) : Prop :=
  ∃ used, ws = used ++ rest ∧ ∀ w ∈ used, w.kind ≠ .illegal

namespace Uses

variable {kind : TokenKind} {text : String} {ws mid rest : List Word}

theorem refl (ws : List Word) : Uses ws ws :=
  ⟨[], rfl, by simp⟩

theorem trans (h₁ : Uses ws mid) (h₂ : Uses mid rest) : Uses ws rest := by
  obtain ⟨us, rfl, hus⟩ := h₁
  obtain ⟨vs, rfl, hvs⟩ := h₂
  refine ⟨us ++ vs, by rw [List.append_assoc], ?_⟩
  intro w hw
  rcases List.mem_append.mp hw with hw | hw
  · exact hus w hw
  · exact hvs w hw

theorem one (hk : kind ≠ .illegal) (rest : List Word) : Uses (⟨kind, text⟩ :: rest) rest :=
  ⟨[⟨kind, text⟩], rfl, by simpa using hk⟩

/-- A word in front. -/
theorem cons (hk : kind ≠ .illegal) (h : Uses ws rest) : Uses (⟨kind, text⟩ :: ws) rest :=
  (one hk ws).trans h

/-- A word after. -/
theorem snoc (h : Uses ws (⟨kind, text⟩ :: rest)) (hk : kind ≠ .illegal) : Uses ws rest :=
  h.trans (one hk rest)

end Uses

theorem Ended.uses {ws rest : List Word} (h : Ended ws rest) : Uses ws rest := by
  rcases h with rfl | ⟨text, rfl⟩
  · exact .refl _
  · exact .one (by decide) _

theorem ne_illegal_of_isBinaryOperator {kind : TokenKind} (h : isBinaryOperator kind) :
    kind ≠ .illegal := by
  rintro rfl
  cases h

/-- A derivation uses the words from where it starts up to what comes after it, once each and in
order, and none of them is illegal. -/
theorem Derives.uses {φ : Phrase} {ws rest : List Word} (h : Derives φ ws rest) :
    Uses ws rest := by
  induction h with
  | done => exact .refl _
  | more _ _ ih₁ ih₂ => exact ih₁.trans ih₂
  | bind _ hend ih =>
      exact .cons (by decide) (.cons (by decide) (.cons (by decide) (ih.trans hend.uses)))
  | ret _ hend ih => exact .cons (by decide) (ih.trans hend.uses)
  | expr _ hend ih => exact ih.trans hend.uses
  | closed _ ih => exact .cons (by decide) (ih.snoc (by decide))
  | unclosed _ ih => exact .cons (by decide) ih
  | ident => exact .one (by decide) _
  | integer => exact .one (by decide) _
  | string => exact .one (by decide) _
  | true => exact .one (by decide) _
  | false => exact .one (by decide) _
  | unary hop _ ih =>
      refine .cons ?_ ih
      rcases hop with hop | hop <;> rw [hop] <;> decide
  | grouped _ ih => exact .cons (by decide) (ih.snoc (by decide))
  | conditional _ _ ih₁ ih₂ =>
      exact .cons (by decide) (.cons (by decide) ((ih₁.snoc (by decide)).trans ih₂))
  | alternative _ _ _ ih₁ ih₂ ih₃ =>
      refine .cons (by decide) (.cons (by decide) ?_)
      exact ((ih₁.snoc (by decide)).trans (ih₂.snoc (by decide))).trans ih₃
  | constant _ ih => exact .cons (by decide) (.cons (by decide) (.cons (by decide) ih))
  | function _ _ ih₁ ih₂ =>
      exact .cons (by decide) (.cons (by decide) ((ih₁.snoc (by decide)).trans ih₂))
  | emptyArray => exact .cons (by decide) (.one (by decide) _)
  | array _ ih => exact .cons (by decide) (ih.snoc (by decide))
  | hash _ ih => exact .cons (by decide) (ih.snoc (by decide))
  | binary _ hop _ ih₁ ih₂ => exact (ih₁.snoc (ne_illegal_of_isBinaryOperator hop)).trans ih₂
  | emptyCall _ ih => exact (ih.snoc (by decide)).snoc (by decide)
  | call _ _ ih₁ ih₂ => exact (ih₁.snoc (by decide)).trans (ih₂.snoc (by decide))
  | index _ _ ih₁ ih₂ => exact (ih₁.snoc (by decide)).trans (ih₂.snoc (by decide))
  | lastExpression _ ih => exact ih
  | moreExpressions _ _ ih₁ ih₂ => exact (ih₁.snoc (by decide)).trans ih₂
  | lastParameter => exact .one (by decide) _
  | moreParameters _ ih => exact .cons (by decide) (.cons (by decide) ih)
  | noPairs => exact .refl _
  | lastPair _ _ ih₁ ih₂ => exact (ih₁.snoc (by decide)).trans ih₂
  | morePairs _ _ _ ih₁ ih₂ ih₃ =>
      exact ((ih₁.snoc (by decide)).trans (ih₂.snoc (by decide))).trans ih₃

end Parser

end Scriptlet
