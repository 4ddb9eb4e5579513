import Scriptlet.Parser.Grammar
import Scriptlet.Proofs.Parser.Reading

/-!
# What the productions read

One lemma for every way in which a production succeeds: given what it reads inside, on which words it
yields what, and where it stops.

**Statements** end in a semicolon here; an expression may go without.  **Loops** are unrolled by one
round: a list goes on after a comma, a hash literal after a pair, an expression after an operator or
an opening bracket.

**Where an expression ends.**  `takes_suffixRounds_stop`: in front of a word that does not bind more
tightly than the level asked for.
-/

namespace Scriptlet

namespace Parser

open Step

variable {expression : Reader} {ws ws' rest after : List Word} {w : Word}

section Statements

variable {e : Expr} {endText : String}

theorem reads_skipSemicolon :
    Reads skipSemicolon (w :: ⟨.semicolon, endText⟩ :: rest) () (⟨.semicolon, endText⟩ :: rest) := by
  unfold skipSemicolon
  exact Reads.ifPeek rfl (reads_advance _)

theorem takes_letStatement {letText name equalsText : String}
    (he : Takes (expression .lowest) ws (some e) (⟨.semicolon, endText⟩ :: rest)) :
    Takes (statementWith expression)
      (⟨.letWord, letText⟩ :: ⟨.ident, name⟩ :: ⟨.assign, equalsText⟩ :: ws)
      (some (.bind name e)) rest := by
  refine ⟨⟨.semicolon, endText⟩, ?_⟩
  apply reads_current_bind
  intro token htoken
  have hkind : token.kind = .letWord := congrArg Word.kind htoken
  simp only [hkind]
  apply Reads.ifExpect
  apply reads_current_bind
  intro token' htoken'
  have hname : token'.text = name := congrArg Word.text htoken'
  apply Reads.ifExpect
  apply (reads_advance _).bind
  apply he.bind
  intro last
  apply reads_skipSemicolon.bind
  rw [hname]
  exact Reads.pure _ _

theorem takes_returnStatement {returnText : String}
    (he : Takes (expression .lowest) ws (some e) (⟨.semicolon, endText⟩ :: rest)) :
    Takes (statementWith expression) (⟨.returnWord, returnText⟩ :: ws) (some (.ret e)) rest := by
  refine ⟨⟨.semicolon, endText⟩, ?_⟩
  apply reads_current_bind
  intro token htoken
  have hkind : token.kind = .returnWord := congrArg Word.kind htoken
  simp only [hkind]
  apply (reads_advance _).bind
  apply he.bind
  intro last
  exact reads_skipSemicolon.bind (Reads.pure _ _)

section Expressions

variable (hlet : w.kind ≠ .letWord) (hreturn : w.kind ≠ .returnWord)
include hlet hreturn

theorem takes_of_expressionStatement {s : Option Stmt}
    (h : Takes (expressionStatement expression) (w :: ws) s rest) :
    Takes (statementWith expression) (w :: ws) s rest := by
  obtain ⟨last, hlast⟩ := h
  refine ⟨last, ?_⟩
  apply reads_current_bind
  intro token htoken
  have hkind : token.kind = w.kind := congrArg Word.kind htoken
  rw [← hkind] at hlet hreturn
  split
  · next h => exact absurd h hlet
  · next h => exact absurd h hreturn
  · exact hlast

theorem takes_expressionStatement
    (he : Takes (expression .lowest) (w :: ws) (some e) (⟨.semicolon, endText⟩ :: rest)) :
    Takes (statementWith expression) (w :: ws) (some (.expr e)) rest := by
  refine takes_of_expressionStatement hlet hreturn ⟨⟨.semicolon, endText⟩, ?_⟩
  apply he.bind
  intro last
  exact reads_skipSemicolon.bind (Reads.pure _ _)

/-- Nothing ends the expression but what comes after it. -/
theorem takes_unendedStatement (hrest : kindAhead rest ≠ .semicolon)
    (he : Takes (expression .lowest) (w :: ws) (some e) rest) :
    Takes (statementWith expression) (w :: ws) (some (.expr e)) rest := by
  refine takes_of_expressionStatement hlet hreturn ?_
  obtain ⟨last, hlast⟩ := he
  have hskip : Reads skipSemicolon (last :: rest) () (last :: rest) :=
    Reads.ifPeek_not hrest (Reads.pure _ _)
  exact ⟨last, hlast.bind (hskip.bind (Reads.pure _ _))⟩

end Expressions

variable {ends : TokenKind → Bool} {read : Block}

theorem reads_statements_done (h : kindAhead ws = .eof ∨ ends (kindAhead ws) = true) :
    Reads (iterate (statementRound expression ends)
      (statementRound_shrinks expression ends) read) ws read ws := by
  apply reads_iterate_done
  intro s errors hs
  refine ⟨s, hs, ?_⟩
  have hkind : s.next.1.kind = kindAhead ws := by rw [s.kind_next, hs]
  have hdone : (s.next.1.kind = .eof || ends s.next.1.kind) = true := by
    rw [hkind]
    rcases h with h | h
    · simp [h]
    · simp [h]
  simp only [statementRound, current, run_bind, run_inspect, State.current_reading, hdone, if_true,
    run_pure]

theorem reads_statements_next {s : Stmt} {result : Block} (heof : w.kind ≠ .eof)
    (hends : ends w.kind = false) (hs : Takes (statementWith expression) (w :: ws) (some s) rest)
    (hrest : Reads (iterate (statementRound expression ends)
      (statementRound_shrinks expression ends) (read ++ [s])) rest result ws') :
    Reads (iterate (statementRound expression ends)
      (statementRound_shrinks expression ends) read) (w :: ws) result ws' := by
  refine reads_iterate_again ?_ hrest
  apply reads_current_bind
  intro token htoken
  have hkind : token.kind = w.kind := congrArg Word.kind htoken
  have hgo : ¬(token.kind = .eof || ends token.kind) = true := by
    rw [hkind, hends]
    simpa using heof
  rw [if_neg hgo]
  apply hs.bind
  intro last
  exact (reads_advance _).bind (Reads.pure _ _)

end Statements

section Lists

variable {close : TokenKind} {closeText : String}

theorem reads_expressionList_empty :
    Reads (expressionListWith expression close) (w :: ⟨close, closeText⟩ :: rest) (some [])
      (⟨close, closeText⟩ :: rest) := by
  apply Reads.ifPeek rfl
  exact (reads_advance _).bind (Reads.pure _ _)

theorem reads_expressionList {e : Expr} {result : Option (List Expr)}
    (hclose : kindAhead ws ≠ close) (he : Takes (expression .lowest) ws (some e) rest)
    (hrest : ∀ last, Reads (iterate (expressionRound expression close)
      (expressionRound_shrinks expression close) [e]) (last :: rest) result ws') :
    Reads (expressionListWith expression close) (w :: ws) result ws' := by
  refine Reads.ifPeek_not hclose ?_
  apply (reads_advance _).bind
  exact he.bind hrest

variable {read : List Expr}

theorem reads_expressionRounds_close (hcomma : close ≠ .comma) :
    Reads (iterate (expressionRound expression close) (expressionRound_shrinks expression close) read)
      (w :: ⟨close, closeText⟩ :: rest) (some read) (⟨close, closeText⟩ :: rest) := by
  apply reads_iterate_done
  refine Reads.ifPeek_not hcomma ?_
  exact Reads.ifExpect (Reads.pure _ _)

theorem reads_expressionRounds_comma {e : Expr} {commaText : String}
    {result : Option (List Expr)} (he : Takes (expression .lowest) ws (some e) rest)
    (hrest : ∀ last, Reads (iterate (expressionRound expression close)
      (expressionRound_shrinks expression close) (read ++ [e])) (last :: rest) result ws') :
    Reads (iterate (expressionRound expression close) (expressionRound_shrinks expression close) read)
      (w :: ⟨.comma, commaText⟩ :: ws) result ws' := by
  obtain ⟨last, hlast⟩ := he
  refine reads_iterate_again ?_ (hrest last)
  apply Reads.ifPeek rfl
  apply (reads_advance _).bind
  apply (reads_advance _).bind
  exact hlast.bind (Reads.pure _ _)

end Lists

section Parameters

variable {name nameText closeText : String} {read : List String} {result : Option (List String)}

theorem reads_parameters_empty :
    Reads parameters (w :: ⟨.rparen, closeText⟩ :: rest) (some []) (⟨.rparen, closeText⟩ :: rest) := by
  apply Reads.ifPeek rfl
  exact (reads_advance _).bind (Reads.pure _ _)

theorem reads_parameters
    (hrest : Reads (iterate parameterRound parameterRound_shrinks [name]) (⟨.ident, name⟩ :: rest)
      result ws') :
    Reads parameters (w :: ⟨.ident, name⟩ :: rest) result ws' := by
  refine Reads.ifPeek_not (by simp) ?_
  apply Reads.ifExpect
  apply reads_current_bind
  intro token htoken
  have hname : token.text = name := congrArg Word.text htoken
  rw [hname]
  exact hrest

theorem reads_parameterRounds_close :
    Reads (iterate parameterRound parameterRound_shrinks read)
      (w :: ⟨.rparen, closeText⟩ :: rest) (some read) (⟨.rparen, closeText⟩ :: rest) := by
  apply reads_iterate_done
  refine Reads.ifPeek_not (by simp) ?_
  exact Reads.ifExpect (Reads.pure _ _)

theorem reads_parameterRounds_comma {commaText : String}
    (hrest : Reads (iterate parameterRound parameterRound_shrinks (read ++ [name]))
      (⟨.ident, name⟩ :: rest) result ws') :
    Reads (iterate parameterRound parameterRound_shrinks read)
      (w :: ⟨.comma, commaText⟩ :: ⟨.ident, name⟩ :: rest) result ws' := by
  refine reads_iterate_again ?_ hrest
  apply Reads.ifPeek rfl
  apply (reads_advance _).bind
  apply Reads.ifExpect
  apply reads_current_bind
  intro token htoken
  have hname : token.text = name := congrArg Word.text htoken
  rw [hname]
  exact Reads.pure _ _

end Parameters

section Operands

theorem reads_ident {name : String} :
    Reads (operand expression) (⟨.ident, name⟩ :: rest) (some (.ident name))
      (⟨.ident, name⟩ :: rest) := by
  apply reads_current_bind
  intro token htoken
  have hkind : token.kind = .ident := congrArg Word.kind htoken
  have htext : token.text = name := congrArg Word.text htoken
  simp only [hkind, htext]
  exact Reads.pure _ _

theorem reads_string {text : String} :
    Reads (operand expression) (⟨.string, text⟩ :: rest) (some (.string text))
      (⟨.string, text⟩ :: rest) := by
  apply reads_current_bind
  intro token htoken
  have hkind : token.kind = .string := congrArg Word.kind htoken
  have htext : token.text = text := congrArg Word.text htoken
  simp only [hkind, htext]
  exact Reads.pure _ _

theorem reads_true {text : String} :
    Reads (operand expression) (⟨.trueWord, text⟩ :: rest) (some (.boolean true))
      (⟨.trueWord, text⟩ :: rest) := by
  apply reads_current_bind
  intro token htoken
  have hkind : token.kind = .trueWord := congrArg Word.kind htoken
  simp only [hkind]
  exact Reads.pure _ _

theorem reads_false {text : String} :
    Reads (operand expression) (⟨.falseWord, text⟩ :: rest) (some (.boolean false))
      (⟨.falseWord, text⟩ :: rest) := by
  apply reads_current_bind
  intro token htoken
  have hkind : token.kind = .falseWord := congrArg Word.kind htoken
  simp only [hkind]
  exact Reads.pure _ _

theorem reads_integer {numeral : String} (hlength : numeral.length ≤ longestNumeral)
    (hrange : (Nat.ofDigitChars 10 numeral.toList 0 : Int) ≤ maxInteger) :
    Reads (operand expression) (⟨.int, numeral⟩ :: rest)
      (some (.integer (Nat.ofDigitChars 10 numeral.toList 0))) (⟨.int, numeral⟩ :: rest) := by
  apply reads_current_bind
  intro token htoken
  have hkind : token.kind = .int := congrArg Word.kind htoken
  have htext : token.text = numeral := congrArg Word.text htoken
  simp only [hkind, htext, integerLiteral]
  rw [if_neg (Nat.not_lt.mpr hlength), if_neg (Int.not_lt.mpr hrange)]
  exact Reads.pure _ _

theorem takes_unary {e : Expr} (hop : w.kind = .bang ∨ w.kind = .minus)
    (he : Takes (expression .unary) ws (some e) rest) :
    Takes (operand expression) (w :: ws) (some (.unary w.text e)) rest := by
  obtain ⟨last, hlast⟩ := he
  refine ⟨last, ?_⟩
  apply reads_current_bind
  intro token htoken
  have hunary : Reads (unary expression) (w :: ws) (some (.unary w.text e)) (last :: rest) := by
    apply reads_current_bind
    intro op hop
    have htext : op.text = w.text := congrArg Word.text hop
    apply (reads_advance _).bind
    rw [htext]
    exact hlast.bind (Reads.pure _ _)
  have hkind : token.kind = w.kind := congrArg Word.kind htoken
  rcases hop with hop | hop
  · simp only [hkind, hop]
    exact hunary
  · simp only [hkind, hop]
    exact hunary

theorem reads_grouped {e : Expr} {openText closeText : String}
    (he : Takes (expression .lowest) ws (some e) (⟨.rparen, closeText⟩ :: rest)) :
    Reads (operand expression) (⟨.lparen, openText⟩ :: ws) (some e) (⟨.rparen, closeText⟩ :: rest) := by
  apply reads_current_bind
  intro token htoken
  have hkind : token.kind = .lparen := congrArg Word.kind htoken
  simp only [hkind]
  apply (reads_advance _).bind
  apply he.bind
  intro last
  exact Reads.ifExpect (Reads.pure _ _)

theorem reads_block {body : Block} {openText closeText : String}
    (hbody : Reads (statementsUntil expression (· = .rbrace)) ws body
      (⟨.rbrace, closeText⟩ :: rest)) :
    Reads (blockWith expression) (⟨.lbrace, openText⟩ :: ws) body (⟨.rbrace, closeText⟩ :: rest) :=
  (reads_advance _).bind hbody

section Conditionals

variable {condition : Expr} {body other : Block} {ifText openText closeText braceText : String}
  (hcondition : Takes (expression .lowest) ws (some condition)
    (⟨.rparen, closeText⟩ :: ⟨.lbrace, braceText⟩ :: after))
include hcondition

theorem takes_conditional (helse : kindAhead rest ≠ .elseWord)
    (hbody : Takes (blockWith expression) (⟨.lbrace, braceText⟩ :: after) body rest) :
    Takes (operand expression) (⟨.ifWord, ifText⟩ :: ⟨.lparen, openText⟩ :: ws)
      (some (.conditional condition body none)) rest := by
  obtain ⟨last, hlast⟩ := hbody
  refine ⟨last, ?_⟩
  apply reads_current_bind
  intro token htoken
  have hkind : token.kind = .ifWord := congrArg Word.kind htoken
  simp only [hkind]
  apply Reads.ifExpect
  apply (reads_advance _).bind
  apply hcondition.bind
  intro _
  apply Reads.ifExpect
  apply Reads.ifExpect
  apply hlast.bind
  exact Reads.ifPeek_not helse (Reads.pure _ _)

theorem takes_alternative {elseText otherText : String} {middle : List Word}
    (hbody : Takes (blockWith expression) (⟨.lbrace, braceText⟩ :: after) body
      (⟨.elseWord, elseText⟩ :: ⟨.lbrace, otherText⟩ :: middle))
    (hother : Takes (blockWith expression) (⟨.lbrace, otherText⟩ :: middle) other rest) :
    Takes (operand expression) (⟨.ifWord, ifText⟩ :: ⟨.lparen, openText⟩ :: ws)
      (some (.conditional condition body (some other))) rest := by
  obtain ⟨last, hlast⟩ := hother
  refine ⟨last, ?_⟩
  apply reads_current_bind
  intro token htoken
  have hkind : token.kind = .ifWord := congrArg Word.kind htoken
  simp only [hkind]
  apply Reads.ifExpect
  apply (reads_advance _).bind
  apply hcondition.bind
  intro _
  apply Reads.ifExpect
  apply Reads.ifExpect
  apply hbody.bind
  intro _
  apply Reads.ifPeek rfl
  apply (reads_advance _).bind
  apply Reads.ifExpect
  exact hlast.bind (Reads.pure _ _)

end Conditionals

theorem takes_function {names : List String} {body : Block}
    {fnText openText closeText braceText : String}
    (hnames : Reads parameters (⟨.lparen, openText⟩ :: ws) (some names)
      (⟨.rparen, closeText⟩ :: ⟨.lbrace, braceText⟩ :: after))
    (hbody : Takes (blockWith expression) (⟨.lbrace, braceText⟩ :: after) body rest) :
    Takes (operand expression) (⟨.functionWord, fnText⟩ :: ⟨.lparen, openText⟩ :: ws)
      (some (.function names body)) rest := by
  obtain ⟨last, hlast⟩ := hbody
  refine ⟨last, ?_⟩
  apply reads_current_bind
  intro token htoken
  have hkind : token.kind = .functionWord := congrArg Word.kind htoken
  simp only [hkind]
  apply Reads.ifExpect
  apply hnames.bind
  apply Reads.ifExpect
  exact hlast.bind (Reads.pure _ _)

theorem reads_array {es : List Expr} {openText closeText : String}
    (hes : Reads (expressionListWith expression .rbracket) (⟨.lbracket, openText⟩ :: ws) (some es)
      (⟨.rbracket, closeText⟩ :: rest)) :
    Reads (operand expression) (⟨.lbracket, openText⟩ :: ws) (some (.array es))
      (⟨.rbracket, closeText⟩ :: rest) := by
  apply reads_current_bind
  intro token htoken
  have hkind : token.kind = .lbracket := congrArg Word.kind htoken
  simp only [hkind]
  exact hes.bind (Reads.pure _ _)

theorem reads_hash {e : Expr} {openText closeText : String}
    (hps : Reads (hashLiteral expression) (⟨.lbrace, openText⟩ :: ws) (some e)
      (⟨.rbrace, closeText⟩ :: rest)) :
    Reads (operand expression) (⟨.lbrace, openText⟩ :: ws) (some e)
      (⟨.rbrace, closeText⟩ :: rest) := by
  apply reads_current_bind
  intro token htoken
  have hkind : token.kind = .lbrace := congrArg Word.kind htoken
  simp only [hkind]
  exact hps

end Operands

section Pairs

variable {read : List (Expr × Expr)} {result : Option Expr}

theorem reads_pairRounds_close {closeText : String} :
    Reads (iterate (pairRound expression) (pairRound_shrinks expression) read)
      (w :: ⟨.rbrace, closeText⟩ :: rest) (some (.hash read)) (⟨.rbrace, closeText⟩ :: rest) := by
  apply reads_iterate_done
  apply Reads.ifPeek rfl
  exact (reads_advance _).bind (Reads.pure _ _)

variable {key value : Expr} {colonText : String} (hws : kindAhead ws ≠ .rbrace)
  (hkey : Takes (expression .lowest) ws (some key) (⟨.colon, colonText⟩ :: after))
include hws hkey

theorem reads_pairRounds_last {closeText : String}
    (hvalue : Takes (expression .lowest) after (some value) (⟨.rbrace, closeText⟩ :: rest)) :
    Reads (iterate (pairRound expression) (pairRound_shrinks expression) read) (w :: ws)
      (some (.hash (Table.put key value read))) (⟨.rbrace, closeText⟩ :: rest) := by
  obtain ⟨last, hlast⟩ := hvalue
  refine reads_iterate_again ?_ (reads_pairRounds_close (w := last))
  refine Reads.ifPeek_not hws ?_
  apply (reads_advance _).bind
  apply hkey.bind
  intro _
  apply Reads.ifExpect
  apply (reads_advance _).bind
  apply hlast.bind
  exact Reads.ifPeek rfl (Reads.pure _ _)

theorem reads_pairRounds_comma {commaText : String}
    (hvalue : Takes (expression .lowest) after (some value) (⟨.comma, commaText⟩ :: rest))
    (hrest : Reads (iterate (pairRound expression) (pairRound_shrinks expression)
      (Table.put key value read)) (⟨.comma, commaText⟩ :: rest) result ws') :
    Reads (iterate (pairRound expression) (pairRound_shrinks expression) read) (w :: ws)
      result ws' := by
  obtain ⟨last, hlast⟩ := hvalue
  refine reads_iterate_again ?_ hrest
  refine Reads.ifPeek_not hws ?_
  apply (reads_advance _).bind
  apply hkey.bind
  intro _
  apply Reads.ifExpect
  apply (reads_advance _).bind
  apply hlast.bind
  refine Reads.ifPeek_not (by simp) ?_
  exact Reads.ifExpect (Reads.pure _ _)

end Pairs

section Suffixes

variable {level : Precedence} {left : Expr} {result : Option Expr}

theorem takes_expressionWith (hoperand : Takes (operand expression) ws (some left) rest)
    (hrounds : ∀ last, Takes (iterate (suffixRound expression level)
      (suffixRound_shrinks expression level) left) (last :: rest) result after) :
    Takes (expressionWith expression level) ws result after :=
  hoperand.bind_takes hrounds

theorem takes_suffixRounds_stop
    (hstop : ¬level.rank < (kindAhead rest).precedence.rank) :
    Takes (iterate (suffixRound expression level) (suffixRound_shrinks expression level) left)
      (w :: rest) (some left) rest := by
  refine ⟨w, reads_iterate_done ?_⟩
  apply (reads_peekKind _).bind
  rw [List.tail_cons, if_neg hstop]
  exact Reads.pure _ _

/-- An expression goes on with whatever its suffix makes of it. -/
theorem takes_suffixRounds {e : Expr} {way : Suffix} (hway : (kindAhead ws).suffix? = some way)
    (hlevel : level.rank < (kindAhead ws).precedence.rank)
    (hsuffix : Takes (suffix expression left way) ws (some e) rest)
    (hrounds : ∀ last, Takes (iterate (suffixRound expression level)
      (suffixRound_shrinks expression level) e) (last :: rest) result after) :
    Takes (iterate (suffixRound expression level) (suffixRound_shrinks expression level) left)
      (w :: ws) result after := by
  obtain ⟨last, hlast⟩ := hsuffix
  obtain ⟨final, hfinal⟩ := hrounds last
  refine ⟨final, reads_iterate_again ?_ hfinal⟩
  apply (reads_peekKind _).bind
  rw [List.tail_cons, if_pos hlevel]
  simp only [hway]
  apply (reads_advance _).bind
  exact hlast.bind (Reads.pure _ _)

theorem takes_operator {right : Expr}
    (hright : Takes (expression w.kind.precedence) ws (some right) rest) :
    Takes (suffix expression left .operator) (w :: ws) (some (.binary left w.text right)) rest := by
  obtain ⟨last, hlast⟩ := hright
  refine ⟨last, ?_⟩
  apply reads_current_bind
  intro op hop
  have hkind : op.kind = w.kind := congrArg Word.kind hop
  have htext : op.text = w.text := congrArg Word.text hop
  apply (reads_advance _).bind
  rw [hkind, htext]
  exact hlast.bind (Reads.pure _ _)

theorem takes_call {es : List Expr} (hes : Takes (expressionListWith expression .rparen) ws
    (some es) rest) :
    Takes (suffix expression left .call) ws (some (.call left es)) rest := by
  obtain ⟨last, hlast⟩ := hes
  exact ⟨last, hlast.bind (Reads.pure _ _)⟩

theorem takes_index {subscript : Expr} {closeText : String}
    (he : Takes (expression .lowest) ws (some subscript) (⟨.rbracket, closeText⟩ :: rest)) :
    Takes (suffix expression left .index) (w :: ws) (some (.index left subscript)) rest := by
  refine ⟨⟨.rbracket, closeText⟩, ?_⟩
  apply (reads_advance _).bind
  apply he.bind
  intro _
  exact Reads.ifExpect (Reads.pure _ _)

end Suffixes

end Parser

end Scriptlet
