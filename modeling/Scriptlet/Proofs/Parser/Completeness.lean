import Scriptlet.Proofs.Parser.Derivation
import Scriptlet.Proofs.Parser.Nesting
import Scriptlet.Proofs.Parser.Productions
import Scriptlet.Proofs.Program.Writing

/-!
# Every way of writing a program is read

**The invariant.**  `Understood n φ ws`: readers of expressions nested at most `n` deep read the words
`ws` as the phrase `φ` and stop right after them.  For an expression this is said of every level below
that of a call and of whatever may follow: reading the words comes to the same as having read the
expression already and looking for what continues it (`Continues`).  That is what lets a call or an
index take a whole expression as its left side.

**Results.**
* `Writes.understood`: what is written down is understood, by induction over the ways of writing.
* `parse_of_writes`: a text in which a well-formed program is written down is read as that program,
  without errors, unless its expressions are nested too deeply.
-/

namespace Scriptlet

namespace Parser

open Step

/-- The kinds of word that an expression starts with. -/
def startsExpression (kind : TokenKind) : Bool :=
  kind ∈ [.ident, .int, .string, .trueWord, .falseWord, .bang, .minus, .lparen, .ifWord,
    .functionWord, .lbracket, .lbrace]

/-- The first word is one that an expression starts with. -/
def Opens (ws : List Word) : Prop :=
  startsExpression (kindAhead ws) = true

/-- Reading the words comes to the same as looking for what continues the expression. -/
def Continues (n : Nat) (e : Expr) (ws : List Word) : Prop :=
  ∀ (level : Precedence) (rest after : List Word) (result : Option Expr),
    level.rank < Precedence.call.rank →
    kindAhead rest ≠ .elseWord →
    (∀ last, Takes (iterate (suffixRound (expressionWithin n) level)
      (suffixRound_shrinks (expressionWithin n) level) e) (last :: rest) result after) →
    Takes (expressionWithin (n + 1) level) (ws ++ rest) result after

/-- Readers of expressions nested at most `n` deep read the words as the phrase. -/
def Understood (n : Nat) : Form → List Word → Prop
  | .operation e, ws =>
      Opens ws ∧ ∀ rest, kindAhead rest = .rparen →
        Takes (expressionWithin (n + 1) .lowest) (ws ++ rest) (some e) rest
  | .expression e, ws => Opens ws ∧ Continues n e ws
  | .expressions es, ws =>
      ∀ (close : TokenKind) (text : String) (w : Word) (rest : List Word),
        close = .rparen ∨ close = .rbracket →
        Reads (expressionListWith (expressionWithin (n + 1)) close)
          (w :: (ws ++ ⟨close, text⟩ :: rest)) (some es) (⟨close, text⟩ :: rest) ∧
        (es ≠ [] → ∀ (read : List Expr) (comma : String),
          Reads (iterate (expressionRound (expressionWithin (n + 1)) close)
              (expressionRound_shrinks (expressionWithin (n + 1)) close) read)
            (w :: ⟨.comma, comma⟩ :: (ws ++ ⟨close, text⟩ :: rest)) (some (read ++ es))
            (⟨close, text⟩ :: rest))
  | .pairs ps, ws =>
      ∀ (read : List (Expr × Expr)) (text : String) (w : Word) (rest : List Word),
        ((read ++ ps).map Prod.fst).Nodup →
        Reads (iterate (pairRound (expressionWithin (n + 1)))
            (pairRound_shrinks (expressionWithin (n + 1))) read)
          (w :: (ws ++ ⟨.rbrace, text⟩ :: rest)) (some (.hash (read ++ ps)))
          (⟨.rbrace, text⟩ :: rest)
  | .statement s, ws =>
      kindAhead ws ≠ .eof ∧ kindAhead ws ≠ .rbrace ∧
        ∀ rest, Takes (statementWith (expressionWithin (n + 1))) (ws ++ rest) (some s) rest
  | .statements body, ws =>
      ∀ (ends : TokenKind → Bool) (read : Block) (rest : List Word),
        (∀ kind, ends kind = true → kind = .rbrace) →
        kindAhead rest = .eof ∨ ends (kindAhead rest) = true →
        Reads (iterate (statementRound (expressionWithin (n + 1)) ends)
            (statementRound_shrinks (expressionWithin (n + 1)) ends) read)
          (ws ++ rest) (read ++ body) rest

section Expressions

variable {n : Nat} {e : Expr} {ws rest : List Word} {level : Precedence}

theorem Opens.ne (h : Opens ws) {kind : TokenKind} (hkind : startsExpression kind = false)
    (rest : List Word) : kindAhead (ws ++ rest) ≠ kind := by
  cases ws with
  | nil => cases h
  | cons w ws =>
      rintro rfl
      exact absurd h (by simpa [Opens] using hkind)

theorem Opens.append (h : Opens ws) (rest : List Word) : Opens (ws ++ rest) := by
  cases ws with
  | nil => cases h
  | cons w ws => exact h

/-- An expression is read up to a word that does not continue it. -/
theorem Continues.takes (h : Continues n e ws) (hlevel : level.rank < Precedence.call.rank)
    (hstop : (kindAhead rest).precedence = .lowest) (helse : kindAhead rest ≠ .elseWord) :
    Takes (expressionWithin (n + 1) level) (ws ++ rest) (some e) rest := by
  refine h level rest rest (some e) hlevel helse ?_
  intro last
  apply takes_suffixRounds_stop
  rw [hstop]
  cases level <;> decide

/-- In front of a word that ends an expression, the words are read as this one. -/
def Whole (n : Nat) (e : Expr) (ws : List Word) : Prop :=
  Opens ws ∧ ∀ rest, (kindAhead rest).precedence = .lowest → kindAhead rest ≠ .elseWord →
    Takes (expressionWithin (n + 1) .lowest) (ws ++ rest) (some e) rest

theorem Understood.whole (h : Understood n (.expression e) ws) : Whole n e ws :=
  ⟨h.1, fun _ hstop helse => h.2.takes (by decide) hstop helse⟩

/-- An operand is an expression that everything continues. -/
theorem continues_of_operand (h : ∀ rest, kindAhead rest ≠ .elseWord →
    Takes (operand (expressionWithin n)) (ws ++ rest) (some e) rest) : Continues n e ws := by
  intro level rest after result _ helse hrounds
  exact takes_expressionWith (h rest helse) hrounds

theorem understood_of_operand {w : Word} (hw : startsExpression w.kind = true)
    (h : ∀ rest, kindAhead rest ≠ .elseWord →
      Takes (operand (expressionWithin n)) (w :: (ws ++ rest)) (some e) rest) :
    Understood n (.expression e) (w :: ws) :=
  ⟨hw, continues_of_operand h⟩

theorem understood_grouped {opening closing : String}
    (h : ∀ rest, kindAhead rest = .rparen →
      Takes (expressionWithin (n + 1) .lowest) (ws ++ rest) (some e) rest) :
    Understood (n + 1) (.expression e) (⟨.lparen, opening⟩ :: (ws ++ [⟨.rparen, closing⟩])) := by
  refine understood_of_operand rfl ?_
  intro rest _
  rw [List.append_assoc]
  exact (reads_grouped (h _ rfl)).takes

theorem understood_unary {op : Word} (hop : op.kind = .bang ∨ op.kind = .minus)
    (h : Understood n (.expression e) ws) :
    Understood (n + 1) (.operation (.unary op.text e)) (op :: ws) := by
  refine ⟨?_, ?_⟩
  · show startsExpression op.kind = true
    rcases hop with hop | hop
    · rw [hop]
      rfl
    · rw [hop]
      rfl
  · intro rest hrest
    have hstop : (kindAhead rest).precedence = .lowest := by rw [hrest]; rfl
    have helse : kindAhead rest ≠ .elseWord := by rw [hrest]; decide
    have he : Takes (expressionWithin (n + 1) .unary) (ws ++ rest) (some e) rest :=
      h.2.takes (by decide) hstop helse
    refine takes_expressionWith (takes_unary hop he) ?_
    intro last
    apply takes_suffixRounds_stop
    rw [hstop]
    decide

theorem binaryOperator_continues {kind : TokenKind} (h : isBinaryOperator kind = true) :
    kind.suffix? = some .operator ∧ Precedence.lowest.rank < kind.precedence.rank ∧
      kind.precedence.rank < Precedence.call.rank ∧ kind ≠ .elseWord := by
  cases kind with
  | plus | minus | asterisk | slash | lt | gt | eq | notEq => decide
  | _ => cases h

theorem understood_binary {op : Word} (hop : isBinaryOperator op.kind = true) {right : Expr}
    {rights : List Word} (hleft : Understood (n + 1) (.expression e) ws)
    (hright : Understood n (.expression right) rights) :
    Understood (n + 1) (.operation (.binary e op.text right)) (ws ++ op :: rights) := by
  obtain ⟨hsuffix, hlow, hhigh, helse⟩ := binaryOperator_continues hop
  refine ⟨hleft.1.append _, ?_⟩
  intro rest hrest
  have hstop : (kindAhead rest).precedence = .lowest := by rw [hrest]; rfl
  have helse' : kindAhead rest ≠ .elseWord := by rw [hrest]; decide
  have hoperand : Takes (expressionWithin (n + 1) op.kind.precedence) (rights ++ rest)
      (some right) rest := hright.2.takes hhigh hstop helse'
  rw [List.append_assoc, List.cons_append]
  refine hleft.2 .lowest _ rest _ (by decide) helse ?_
  intro last
  refine takes_suffixRounds hsuffix hlow (takes_operator hoperand) ?_
  intro last'
  apply takes_suffixRounds_stop
  rw [hstop]
  decide

section Suffixes

variable {more : List Word} {opening closing : String} (h : Understood (n + 1) (.expression e) ws)
include h

theorem understood_call {es : List Expr} (hes : Understood n (.expressions es) more) :
    Understood (n + 1) (.expression (.call e es))
      (ws ++ ⟨.lparen, opening⟩ :: (more ++ [⟨.rparen, closing⟩])) := by
  refine ⟨h.1.append _, ?_⟩
  intro level rest after result hlevel _ hrounds
  rw [List.append_assoc, List.cons_append, List.append_assoc]
  refine h.2 level _ after result hlevel (by simp) ?_
  intro last
  have hlist := (hes .rparen closing ⟨.lparen, opening⟩ rest (Or.inl rfl)).1
  exact takes_suffixRounds rfl hlevel (takes_call hlist.takes) hrounds

theorem understood_index {subscript : Expr} (hsubscript : Whole n subscript more) :
    Understood (n + 1) (.expression (.index e subscript))
      (ws ++ ⟨.lbracket, opening⟩ :: (more ++ [⟨.rbracket, closing⟩])) := by
  refine ⟨h.1.append _, ?_⟩
  intro level rest after result hlevel _ hrounds
  rw [List.append_assoc, List.cons_append, List.append_assoc]
  refine h.2 level _ after result hlevel (by simp) ?_
  intro last
  have hinside : Takes (expressionWithin (n + 1) .lowest) (more ++ ⟨.rbracket, closing⟩ :: rest)
      (some subscript) (⟨.rbracket, closing⟩ :: rest) :=
    hsubscript.2 _ rfl (by simp)
  have hrank : level.rank < Precedence.index.rank := Nat.lt_trans hlevel (by decide)
  exact takes_suffixRounds rfl hrank (takes_index hinside) hrounds

end Suffixes

end Expressions

section Lists

variable {n : Nat} {e : Expr} {es : List Expr} {ws more : List Word}

theorem precedence_of_close {close : TokenKind} (h : close = .rparen ∨ close = .rbracket) :
    close.precedence = .lowest ∧ close ≠ .elseWord ∧ close ≠ .comma ∧
      startsExpression close = false := by
  rcases h with rfl | rfl
  · decide
  · decide

theorem understood_noExpressions : Understood n (.expressions []) [] := by
  intro close text w rest _
  refine ⟨reads_expressionList_empty, ?_⟩
  intro hne
  exact absurd rfl hne

theorem understood_lastExpression (h : Whole n e ws) : Understood n (.expressions [e]) ws := by
  intro close text w rest hclose
  obtain ⟨hstop, helse, hcomma, hstart⟩ := precedence_of_close hclose
  have he : Takes (expressionWithin (n + 1) .lowest) (ws ++ ⟨close, text⟩ :: rest) (some e)
      (⟨close, text⟩ :: rest) := h.2 _ hstop helse
  constructor
  · refine reads_expressionList (h.1.ne hstart _) he ?_
    intro last
    exact reads_expressionRounds_close hcomma
  · intro _ read comma
    refine reads_expressionRounds_comma he ?_
    intro last
    exact reads_expressionRounds_close hcomma

theorem understood_moreExpressions {next : Expr} {comma : String} (h : Whole n e ws)
    (hmore : Understood n (.expressions (next :: es)) more) :
    Understood n (.expressions (e :: next :: es)) (ws ++ ⟨.comma, comma⟩ :: more) := by
  intro close text w rest hclose
  obtain ⟨hstop, helse, hcomma, hstart⟩ := precedence_of_close hclose
  have he : Takes (expressionWithin (n + 1) .lowest)
      (ws ++ ⟨.comma, comma⟩ :: (more ++ ⟨close, text⟩ :: rest)) (some e)
      (⟨.comma, comma⟩ :: (more ++ ⟨close, text⟩ :: rest)) := h.2 _ rfl (by simp)
  rw [List.append_assoc, List.cons_append]
  constructor
  · refine reads_expressionList (h.1.ne hstart _) he ?_
    intro last
    exact (hmore close text last rest hclose).2 (List.cons_ne_nil _ _) [e] comma
  · intro _ read comma'
    refine reads_expressionRounds_comma he ?_
    intro last
    have hrest := (hmore close text last rest hclose).2 (List.cons_ne_nil _ _) (read ++ [e]) comma
    rw [List.append_assoc] at hrest
    exact hrest

theorem understood_array {opening closing : String} (h : Understood n (.expressions es) ws) :
    Understood (n + 1) (.expression (.array es))
      (⟨.lbracket, opening⟩ :: (ws ++ [⟨.rbracket, closing⟩])) := by
  refine understood_of_operand rfl ?_
  intro rest _
  have hlist := (h .rbracket closing ⟨.lbracket, opening⟩ rest (Or.inr rfl)).1
  rw [List.append_assoc]
  exact (reads_array hlist).takes

end Lists

section Pairs

variable {n : Nat} {key value : Expr} {ws values more : List Word}

theorem put_of_not_mem {read : List (Expr × Expr)} (h : key ∉ read.map Prod.fst) (value : Expr) :
    Table.put key value read = read ++ [(key, value)] := by
  induction read with
  | nil => rfl
  | cons p rest ih =>
      rw [List.map_cons, List.mem_cons, not_or] at h
      rw [Table.put, if_neg (Ne.symm h.1), ih h.2, List.cons_append]

/-- A key that comes after others that differ from it is new. -/
theorem not_mem_of_nodup {read ps : List (Expr × Expr)}
    (h : ((read ++ (key, value) :: ps).map Prod.fst).Nodup) : key ∉ read.map Prod.fst := by
  rw [List.map_append, List.nodup_append] at h
  intro hkey
  exact h.2.2 key hkey key List.mem_cons_self rfl

theorem understood_noPairs : Understood n (.pairs []) [] := by
  intro read text w rest _
  rw [List.append_nil]
  exact reads_pairRounds_close

section Key

variable {colon : String} (hkey : Understood n (.expression key) ws)
  (hvalue : Understood n (.expression value) values)
include hkey hvalue

theorem understood_lastPair : Understood n (.pairs [(key, value)]) (ws ++ ⟨.colon, colon⟩ :: values) := by
  intro read text w rest hnodup
  rw [← put_of_not_mem (not_mem_of_nodup hnodup), List.append_assoc, List.cons_append]
  refine reads_pairRounds_last (hkey.1.ne rfl _) (hkey.2.takes (by decide) rfl (by simp)) ?_
  exact hvalue.2.takes (by decide) rfl (by simp)

theorem understood_morePairs {comma : String} {ps : List (Expr × Expr)}
    (hmore : Understood n (.pairs ps) more) :
    Understood n (.pairs ((key, value) :: ps))
      (ws ++ ⟨.colon, colon⟩ :: (values ++ ⟨.comma, comma⟩ :: more)) := by
  intro read text w rest hnodup
  have hput := put_of_not_mem (not_mem_of_nodup hnodup) value
  have happend : read ++ (key, value) :: ps = read ++ [(key, value)] ++ ps := by
    rw [List.append_assoc, List.singleton_append]
  rw [happend] at hnodup ⊢
  rw [List.append_assoc, List.cons_append, List.append_assoc, List.cons_append]
  refine reads_pairRounds_comma (hkey.1.ne rfl _) (hkey.2.takes (by decide) rfl (by simp))
    (hvalue.2.takes (by decide) rfl (by simp)) ?_
  rw [hput]
  exact hmore _ text _ rest hnodup

end Key

theorem understood_hash {ps : List (Expr × Expr)} {opening closing : String}
    (hnodup : (ps.map Prod.fst).Nodup) (h : Understood n (.pairs ps) ws) :
    Understood (n + 1) (.expression (.hash ps))
      (⟨.lbrace, opening⟩ :: (ws ++ [⟨.rbrace, closing⟩])) := by
  refine understood_of_operand rfl ?_
  intro rest _
  rw [List.append_assoc]
  exact (reads_hash (h [] closing ⟨.lbrace, opening⟩ rest hnodup)).takes

end Pairs

section Statements

variable {n : Nat} {e : Expr} {ws more : List Word} {ending : String}

theorem understood_bind {letText name equals : String} (h : Understood n (.expression e) ws) :
    Understood n (.statement (.bind name e))
      (⟨.letWord, letText⟩ :: ⟨.ident, name⟩ :: ⟨.assign, equals⟩ ::
        (ws ++ [⟨.semicolon, ending⟩])) := by
  refine ⟨by simp, by simp, ?_⟩
  intro rest
  rw [List.cons_append, List.cons_append, List.cons_append, List.append_assoc]
  exact takes_letStatement (h.2.takes (by decide) rfl (by simp))

theorem understood_ret {returnText : String} (h : Understood n (.expression e) ws) :
    Understood n (.statement (.ret e))
      (⟨.returnWord, returnText⟩ :: (ws ++ [⟨.semicolon, ending⟩])) := by
  refine ⟨by simp, by simp, ?_⟩
  intro rest
  rw [List.cons_append, List.append_assoc]
  exact takes_returnStatement (h.2.takes (by decide) rfl (by simp))

theorem understood_expr (h : Understood n (.expression e) ws) :
    Understood n (.statement (.expr e)) (ws ++ [⟨.semicolon, ending⟩]) := by
  refine ⟨h.1.ne rfl _, h.1.ne rfl _, ?_⟩
  intro rest
  have hlet : ∀ after, kindAhead (ws ++ after) ≠ .letWord := h.1.ne rfl
  have hreturn : ∀ after, kindAhead (ws ++ after) ≠ .returnWord := h.1.ne rfl
  have he : Takes (expressionWithin (n + 1) .lowest) (ws ++ ⟨.semicolon, ending⟩ :: rest) (some e)
      (⟨.semicolon, ending⟩ :: rest) := h.2.takes (by decide) rfl (by simp)
  rw [List.append_assoc]
  cases ws with
  | nil => cases h.1
  | cons w ws => exact takes_expressionStatement (hlet []) (hreturn []) he

theorem understood_noStatements : Understood n (.statements []) [] := by
  intro ends read rest _ hend
  rw [List.append_nil]
  exact reads_statements_done hend

/-- Only a closing brace ends the statements of a block. -/
theorem ends_eq_false {ends : TokenKind → Bool} {kind : TokenKind}
    (hends : ∀ kind, ends kind = true → kind = .rbrace) (h : kind ≠ .rbrace) :
    ends kind = false := by
  cases hkind : ends kind with
  | false => rfl
  | true => exact absurd (hends kind hkind) h

/-- An expression that nothing ends but the end of the statements. -/
theorem understood_lastStatement (h : Whole n e ws) : Understood n (.statements [.expr e]) ws := by
  intro ends read rest hends hend
  have hrest : kindAhead rest = .eof ∨ kindAhead rest = .rbrace := hend.imp_right (hends _)
  have hstop : (kindAhead rest).precedence = .lowest ∧ kindAhead rest ≠ .elseWord ∧
      kindAhead rest ≠ .semicolon := by
    rcases hrest with hrest | hrest
    · rw [hrest]
      decide
    · rw [hrest]
      decide
  have he : Takes (expressionWithin (n + 1) .lowest) (ws ++ rest) (some e) rest :=
    h.2 _ hstop.1 hstop.2.1
  have hne : ∀ kind, startsExpression kind = false → kindAhead ws ≠ kind := by
    intro kind hkind
    have hahead := h.1.ne hkind []
    rwa [List.append_nil] at hahead
  cases ws with
  | nil => cases h.1
  | cons w ws =>
      have hgo : ends w.kind = false := ends_eq_false hends (hne _ rfl)
      have hs := takes_unendedStatement (hne _ rfl) (hne _ rfl) hstop.2.2 he
      exact reads_statements_next (hne _ rfl) hgo hs (reads_statements_done hend)

theorem understood_moreStatements {s : Stmt} {body : Block} (h : Understood n (.statement s) ws)
    (hmore : Understood n (.statements body) more) :
    Understood n (.statements (s :: body)) (ws ++ more) := by
  intro ends read rest hends hend
  obtain ⟨heof, hbrace, hs⟩ := h
  cases ws with
  | nil => exact absurd rfl heof
  | cons w ws =>
      have hgo : ends w.kind = false := ends_eq_false hends hbrace
      have hrest := hmore ends (read ++ [s]) rest hends hend
      rw [List.append_assoc, List.singleton_append] at hrest
      rw [List.append_assoc]
      exact reads_statements_next heof hgo (hs _) hrest

end Statements

section Blocks

variable {n : Nat} {ws bodies : List Word} {body : Block} {opening closing : String}
  (hbody : Understood n (.statements body) bodies)
include hbody

theorem takes_braced (rest : List Word) :
    Takes (blockWith (expressionWithin (n + 1)))
      (⟨.lbrace, opening⟩ :: (bodies ++ ⟨.rbrace, closing⟩ :: rest)) body rest := by
  have hstatements := hbody (· = .rbrace) [] (⟨.rbrace, closing⟩ :: rest) (by simp) (Or.inr rfl)
  exact (reads_block hstatements).takes

section Conditionals

variable {condition : Expr} {ifText open' close' : String}
  (hcondition : Understood n (.expression condition) ws)
include hcondition

theorem understood_conditional :
    Understood (n + 1) (.expression (.conditional condition body none))
      (⟨.ifWord, ifText⟩ :: ⟨.lparen, open'⟩ :: (ws ++ ⟨.rparen, close'⟩ :: ⟨.lbrace, opening⟩ ::
        (bodies ++ [⟨.rbrace, closing⟩]))) := by
  refine understood_of_operand rfl ?_
  intro rest helse
  rw [List.cons_append, List.append_assoc, List.cons_append, List.cons_append, List.append_assoc]
  exact takes_conditional (hcondition.2.takes (by decide) rfl (by simp)) helse
    (takes_braced hbody rest)

theorem understood_alternative {other : Block} {others : List Word}
    {elseText opening' closing' : String} (hother : Understood n (.statements other) others) :
    Understood (n + 1) (.expression (.conditional condition body (some other)))
      (⟨.ifWord, ifText⟩ :: ⟨.lparen, open'⟩ :: (ws ++ ⟨.rparen, close'⟩ :: ⟨.lbrace, opening⟩ ::
        (bodies ++ ⟨.rbrace, closing⟩ :: ⟨.elseWord, elseText⟩ :: ⟨.lbrace, opening'⟩ ::
          (others ++ [⟨.rbrace, closing'⟩])))) := by
  refine understood_of_operand rfl ?_
  intro rest _
  simp only [List.cons_append, List.append_assoc, List.nil_append]
  exact takes_alternative (hcondition.2.takes (by decide) rfl (by simp))
    (takes_braced hbody _) (takes_braced hother rest)

end Conditionals

theorem understood_function {names : List String} {fnText open' close' : String}
    (hnames : ∀ rest, Reads parameters (⟨.lparen, open'⟩ :: (ws ++ ⟨.rparen, close'⟩ :: rest))
      (some names) (⟨.rparen, close'⟩ :: rest)) :
    Understood (n + 1) (.expression (.function names body))
      (⟨.functionWord, fnText⟩ :: ⟨.lparen, open'⟩ :: (ws ++ ⟨.rparen, close'⟩ ::
        ⟨.lbrace, opening⟩ :: (bodies ++ [⟨.rbrace, closing⟩]))) := by
  refine understood_of_operand rfl ?_
  intro rest _
  rw [List.cons_append, List.append_assoc, List.cons_append, List.cons_append, List.append_assoc]
  exact takes_function (hnames _) (takes_braced hbody rest)

end Blocks

section Parameters

variable {closing : String} {rest : List Word}

theorem intersperse_cons (name : String) (others : List String) :
    (name :: others).intersperse "," = name :: others.flatMap fun other => [",", other] := by
  induction others generalizing name with
  | nil => rfl
  | cons next others ih =>
      rw [List.intersperse_cons_cons, ih next, List.flatMap_cons]
      rfl

theorem reads_moreParameters {others read : List String} {w : Word}
    (h : others.all isName = true) :
    Reads (iterate parameterRound parameterRound_shrinks read)
      (w :: ((others.flatMap fun other => [",", other]).map wordOf ++ ⟨.rparen, closing⟩ :: rest))
      (some (read ++ others)) (⟨.rparen, closing⟩ :: rest) := by
  induction others generalizing read w with
  | nil =>
      rw [List.append_nil]
      exact reads_parameterRounds_close
  | cons next others ih =>
      rw [List.all_cons, Bool.and_eq_true] at h
      have hrest := @ih (read ++ [next]) (wordOf next) h.2
      rw [List.append_assoc, (solid_of_isName h.1).2] at hrest
      rw [List.flatMap_cons, List.map_append, List.map_cons, List.map_singleton,
        (solid_of_isName h.1).2]
      exact reads_parameterRounds_comma hrest

theorem reads_parameterNames {names : List String} {opening : String}
    (h : names.all isName = true) :
    Reads parameters
      (⟨.lparen, opening⟩ :: ((names.intersperse ",").map wordOf ++ ⟨.rparen, closing⟩ :: rest))
      (some names) (⟨.rparen, closing⟩ :: rest) := by
  cases names with
  | nil => exact reads_parameters_empty
  | cons name others =>
      rw [List.all_cons, Bool.and_eq_true] at h
      rw [intersperse_cons, List.map_cons, (solid_of_isName h.1).2]
      exact reads_parameters (reads_moreParameters h.2)

end Parameters

section Operators

theorem kind_of_unaryOperator {op : String} (h : op ∈ unaryOperators) :
    (wordOf op).text = op ∧ ((wordOf op).kind = .bang ∨ (wordOf op).kind = .minus) := by
  have hall : ∀ op ∈ unaryOperators,
      (wordOf op).text = op ∧ ((wordOf op).kind = .bang ∨ (wordOf op).kind = .minus) := by decide
  exact hall op h

theorem kind_of_binaryOperator {op : String} (h : op ∈ binaryOperators) :
    (wordOf op).text = op ∧ isBinaryOperator (wordOf op).kind = true := by
  have hall : ∀ op ∈ binaryOperators,
      (wordOf op).text = op ∧ isBinaryOperator (wordOf op).kind = true := by decide
  exact hall op h

end Operators

/-- What is written down is understood.  The induction is over the ways of writing, one lemma for
each of them. -/
theorem understood_of_writes {n : Nat} {φ : Form} {lexemes : List String} (h : Writes n φ lexemes)
    (hφ : φ.wellFormed = true) : Understood n φ (lexemes.map wordOf) := by
  induction h with
  | ident =>
      rw [List.map_singleton, (solid_of_isName hφ).2]
      exact understood_of_operand rfl fun _ _ => reads_ident.takes
  | @integer n value numeral hnumeral =>
      rw [List.map_singleton, (solid_of_isNumeral hnumeral).2]
      obtain ⟨-, -, hlength, rfl⟩ := hnumeral
      simp only [Form.wellFormed, Expr.wellFormed, Bool.and_eq_true, decide_eq_true_eq] at hφ
      exact understood_of_operand rfl fun _ _ => (reads_integer hlength hφ.2).takes
  | @boolean n value =>
      cases value with
      | false => exact understood_of_operand rfl fun _ _ => reads_false.takes
      | true => exact understood_of_operand rfl fun _ _ => reads_true.takes
  | string =>
      rw [List.map_singleton, (solid_quoted (of_decide_eq_true hφ)).2]
      exact understood_of_operand rfl fun _ _ => reads_string.takes
  | @unary n op right rights _ ih =>
      simp only [Form.wellFormed, Expr.wellFormed, Bool.and_eq_true, decide_eq_true_eq] at hφ
      obtain ⟨htext, hkind⟩ := kind_of_unaryOperator hφ.1
      have hunderstood := understood_unary hkind (ih hφ.2)
      rw [htext] at hunderstood
      exact hunderstood
  | @binary n op left right lefts rights _ _ ihleft ihright =>
      simp only [Form.wellFormed, Expr.wellFormed, Bool.and_eq_true, decide_eq_true_eq] at hφ
      obtain ⟨⟨hop, hleft⟩, hright⟩ := hφ
      obtain ⟨htext, hkind⟩ := kind_of_binaryOperator hop
      have hunderstood := understood_binary hkind (ihleft hleft) (ihright hright)
      rw [htext] at hunderstood
      rw [List.map_append]
      exact hunderstood
  | operation _ ih =>
      rw [parenthesized, List.map_cons, List.map_append]
      exact understood_grouped (ih hφ).2
  | grouped _ ih =>
      rw [parenthesized, List.map_cons, List.map_append]
      refine understood_grouped ?_
      intro rest hrest
      exact (ih hφ).2.takes (by decide) (by rw [hrest]; rfl) (by rw [hrest]; decide)
  | conditional _ _ ihcondition ihbody =>
      simp only [Form.wellFormed, Expr.wellFormed, Bool.and_eq_true] at hφ
      obtain ⟨⟨hcondition, hbody⟩, -⟩ := hφ
      simp only [parenthesized, braced, List.map_cons, List.map_append, List.cons_append,
        List.append_assoc]
      exact understood_conditional (ihbody hbody) (ihcondition hcondition)
  | alternative _ _ _ ihcondition ihbody ihother =>
      simp only [Form.wellFormed, Expr.wellFormed, Bool.and_eq_true] at hφ
      obtain ⟨⟨hcondition, hbody⟩, hother⟩ := hφ
      simp only [parenthesized, braced, List.map_cons, List.map_append, List.cons_append,
        List.append_assoc]
      exact understood_alternative (ihbody hbody) (ihcondition hcondition) (ihother hother)
  | function _ ih =>
      simp only [Form.wellFormed, Expr.wellFormed, Bool.and_eq_true] at hφ
      simp only [parenthesized, braced, List.map_cons, List.map_append, List.cons_append,
        List.append_assoc]
      exact understood_function (ih hφ.2) fun _ => reads_parameterNames hφ.1
  | call _ _ ihcallee ih =>
      simp only [Form.wellFormed, Expr.wellFormed, Bool.and_eq_true] at hφ
      rw [parenthesized, List.map_append, List.map_cons, List.map_append]
      exact understood_call (ihcallee hφ.1) (ih hφ.2)
  | index _ _ ihleft ih =>
      simp only [Form.wellFormed, Expr.wellFormed, Bool.and_eq_true] at hφ
      rw [bracketed, List.map_append, List.map_cons, List.map_append]
      exact understood_index (ihleft hφ.1) (ih hφ.2).whole
  | array _ ih =>
      rw [bracketed, List.map_cons, List.map_append]
      exact understood_array (ih hφ)
  | hash _ ih =>
      simp only [Form.wellFormed, Expr.wellFormed, Bool.and_eq_true, decide_eq_true_eq] at hφ
      rw [braced, List.map_cons, List.map_append]
      exact understood_hash hφ.1 (ih hφ.2)
  | noExpressions => exact understood_noExpressions
  | lastExpression _ ih =>
      simp only [Form.wellFormed, Expr.wellFormedAll, Bool.and_true] at hφ
      exact understood_lastExpression (ih hφ).whole
  | moreExpressions _ _ ih ihmore =>
      rw [Form.wellFormed, Expr.wellFormedAll, Bool.and_eq_true] at hφ
      rw [List.map_append]
      exact understood_moreExpressions (ih hφ.1).whole (ihmore hφ.2)
  | noPairs => exact understood_noPairs
  | lastPair _ _ ihkey ihvalue =>
      simp only [Form.wellFormed, Expr.wellFormedPairs, Bool.and_eq_true] at hφ
      rw [List.map_append]
      exact understood_lastPair (ihkey hφ.1.1) (ihvalue hφ.1.2)
  | morePairs _ _ _ ihkey ihvalue ihmore =>
      simp only [Form.wellFormed, Expr.wellFormedPairs, Bool.and_eq_true] at hφ
      rw [List.map_append, List.map_cons, List.map_append]
      exact understood_morePairs (ihkey hφ.1.1) (ihvalue hφ.1.2) (ihmore hφ.2)
  | bind _ ih =>
      simp only [Form.wellFormed, Stmt.wellFormed, Bool.and_eq_true] at hφ
      rw [List.map_cons, List.map_cons, List.map_cons, List.map_append, (solid_of_isName hφ.1).2]
      exact understood_bind (ih hφ.2)
  | ret _ ih =>
      rw [List.map_cons, List.map_append]
      exact understood_ret (ih hφ)
  | expr _ ih =>
      rw [List.map_append]
      exact understood_expr (ih hφ)
  | noStatements => exact understood_noStatements
  | moreStatements _ _ ih ihmore =>
      simp only [Form.wellFormed, Stmt.wellFormedAll, Bool.and_eq_true] at hφ
      rw [List.map_append]
      exact understood_moreStatements (ih hφ.1) (ihmore hφ.2)

section Programs

variable {n : Nat} {p : Program} {lexemes : List String} {text : String}

/-- Where the text ends after the statements, they are the program. -/
theorem Understood.reads {ws : List Word} (h : Understood n (.statements p.statements) ws) :
    Reads (programWith (expressionWithin (n + 1))) ws p [] := by
  have hbody := h (fun _ => false) [] [] (by simp) (Or.inl rfl)
  rw [List.append_nil, List.nil_append] at hbody
  exact hbody.bind (Reads.pure _ _)

theorem words_of_spaced (hp : p.wellFormed = true)
    (hw : Writes n (.statements p.statements) lexemes) (ht : Spaced lexemes text.toList) :
    (Scanner.ofString text).words = lexemes.map wordOf := by
  rw [Scanner.words_eq]
  exact wordsOf_of_spaced ht (hw.solid hp)

/-- A text in which a well-formed program is written down is read as that program, without errors;
only nesting that is too deep can keep it from being read. -/
theorem parse_of_writes (hp : p.wellFormed = true)
    (hw : Writes n (.statements p.statements) lexemes) (ht : Spaced lexemes text.toList) :
    (parse text = .ok ⟨p, []⟩ ∨ parse text = .error .nestedTooDeeply) ∧
      (n < maxNesting → parse text = .ok ⟨p, []⟩) := by
  have hread : ∀ m, n ≤ m → ∃ s,
      (programWith (expressionWithin (m + 1))).run (.ofString text) = .ok (p, .reading s []) := by
    intro m hle
    have hwords := words_of_spaced hp hw ht
    obtain ⟨s, -, hrun⟩ := (understood_of_writes (hw.mono hle) hp).reads _ [] hwords
    exact ⟨s, hrun⟩
  have hwithin : n < maxNesting → parse text = .ok ⟨p, []⟩ := by
    intro hn
    obtain ⟨s, hrun⟩ := hread (maxNesting - 1) (Nat.le_pred_of_lt hn)
    have hprogram : program.run (.ofString text) = .ok (p, .reading s []) := hrun
    rw [parse, hprogram]
    rfl
  refine ⟨?_, hwithin⟩
  -- Past the limit, a parser with more room has read the program, and this one approximates it.
  by_cases hn : n < maxNesting
  · exact Or.inl (hwithin hn)
  · obtain ⟨s, hrun⟩ := hread n (Nat.le_refl n)
    have hle : maxNesting ≤ n + 1 := by omega
    have happrox : Approximates program (programWith (expressionWithin (n + 1))) :=
      programWith_approximates (expressionWithin_approximates hle)
    rcases happrox (.ofString text) with hstop | hsame
    · right
      rw [parse, hstop]
    · left
      rw [parse, hsame, hrun]
      rfl

end Programs

/-- A call of a conditional: a comparison in three pairs of parentheses, one of them that of the
condition, and a comma after the last pair of a hash literal. -/
theorem parse_of_writes_called_conditional :
    let p : Program :=
      ⟨[.expr (.index (.call (.conditional (.binary (.ident "a") "<" (.integer 1))
        [.ret (.string "x y")] (some [.expr (.hash [(.integer 1, .array [])])])) [])
        (.integer 0))]⟩
    let lexemes := ["if", "(", "(", "(", "a", "<", "01", ")", ")", ")", "\x7b", "return", "\"x y\"",
      ";", "\x7d", "else", "\x7b", "\x7b", "1", ":", "[", "]", ",", "\x7d", ";", "\x7d", "(", ")", "[",
      "0", "]", ";"]
    let text := " if ( ( ( a < 01 ) ) ) \x7b return \"x y\" ; \x7d" ++
      " else \x7b \x7b 1 : [ ] , \x7d ; \x7d ( ) [ 0 ] ;"
    p.wellFormed = true ∧ Writes 4 (.statements p.statements) lexemes ∧
      Spaced lexemes text.toList ∧ parse text = .ok ⟨p, []⟩ := by
  intro p lexemes text
  have hp : p.wellFormed = true := by decide
  have hcomparison : Writes 3 (.expression (.binary (.ident "a") "<" (.integer 1)))
      ["(", "(", "a", "<", "01", ")", ")"] :=
    .grouped (.operation (.binary .ident (.integer (by decide : IsNumeral "01" 1))))
  have hreturn : Writes 3 (.statements [.ret (.string "x y")]) ["return", "\"x y\"", ";"] :=
    .moreStatements (.ret .string) .noStatements
  have hhash : Writes 3 (.statements [.expr (.hash [(.integer 1, .array [])])])
      ["\x7b", "1", ":", "[", "]", ",", "\x7d", ";"] :=
    .moreStatements (.expr (.hash (.morePairs (.integer (by decide : IsNumeral "1" 1))
      (.array .noExpressions) .noPairs))) .noStatements
  have hw : Writes 4 (.statements p.statements) lexemes :=
    .moreStatements (.expr (.index (.call (.alternative hcomparison hreturn hhash) .noExpressions)
      (.integer (by decide : IsNumeral "0" 0)))) .noStatements
  have ht : Spaced lexemes text.toList := by
    have htext : text.toList = lexemes.flatMap fun lexeme => ' ' :: lexeme.toList := by
      decide +kernel
    rw [htext]
    exact spaced_flatMap lexemes
  exact ⟨hp, hw, ht, (parse_of_writes hp hw ht).2 (by decide)⟩

end Parser

end Scriptlet
