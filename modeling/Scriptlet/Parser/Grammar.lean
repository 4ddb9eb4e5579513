import Scriptlet.Integer
import Scriptlet.Table
import Scriptlet.Program.Basic
import Scriptlet.Parser.Precedence
import Scriptlet.Parser.State

/-!
# Grammar

Statements are read by recursive descent and expressions by precedence climbing.

**Conventions.**  A production starts with the current token on the first token of its phrase and
leaves it on the last.  A production that fails yields nothing, after recording an error; the
parser then goes on from where it stands, so one text may yield several errors and a program that
lacks the statements that failed.

**Nesting.**  Every production is given the reader of the expressions inside it.  Tying the knot
counts the nesting: `expressionWithin n` reads expressions nested at most `n` deep.

**The host.**  A host reads expressions on its stack, and looks up the keys of a hash by a descent into them.
How much of either it has room for is told by an instance of `Capacity`.  Room is counted in expressions, each
of which takes several frames, and not in the frames of one host or another.

**Numerals.**  A numeral of more than `longestNumeral` digits stops the parser.

**Result.**  `parse` takes a text to a program and the errors found, or to a fault.
-/

namespace Scriptlet

namespace Parser

open Step

/-- The most digits a numeral can have. -/
def longestNumeral : Nat := 4300

/-- What a host has room for while it reads. -/
class Capacity where
  /-- How deep expressions may nest. -/
  nesting : Nat
  /-- Whether a key can be looked up among others. -/
  hashable : Expr → Bool

/-- The nesting that there is room for where nothing is said of the host.  It stands for a host with frames
enough for a thousand expressions inside each other; the frames of the base limit are not so many. -/
def maxNesting : Nat := 1000

/-- Where nothing is said of the host, every key can be looked up. -/
instance (priority := low) : Capacity := ⟨maxNesting, fun _ => true⟩

/-- A reader of expressions that bind more tightly than a given level. -/
abbrev Reader := Precedence → Step (Option Expr)

section Statements

/-- After a statement: a semicolon there belongs to it. -/
def skipSemicolon : Step Unit := do
  if (← peekKind) = .semicolon then
    advance

variable (expression : Reader)

/-- `let` name `=` expression. -/
def letStatement : Step (Option Stmt) := do
  if ← expectPeek .ident then
    let name ← current
    if ← expectPeek .assign then
      advance
      let value ← expression .lowest
      skipSemicolon
      return value.map (.bind name.text)
    else
      return none
  else
    return none

/-- `return` expression. -/
def returnStatement : Step (Option Stmt) := do
  advance
  let value ← expression .lowest
  skipSemicolon
  return value.map .ret

/-- An expression on its own. -/
def expressionStatement : Step (Option Stmt) := do
  let value ← expression .lowest
  skipSemicolon
  return value.map .expr

/-- Any statement. -/
def statementWith : Step (Option Stmt) := do
  match (← current).kind with
  | .letWord => letStatement expression
  | .returnWord => returnStatement expression
  | _ => expressionStatement expression

/-- Reads one more statement, unless the current token ends the sequence. -/
def statementRound (ends : TokenKind → Bool) (read : Block) : Step (Round Block Block) := do
  let token ← current
  if token.kind = .eof || ends token.kind then
    return .done read
  else
    let s ← statementWith expression
    advance
    return .again (read ++ s.toList)

theorem statementRound_shrinks (ends : TokenKind → Bool) (read : Block) :
    Shrinks (statementRound expression ends read) := by
  intro p s q h
  simp only [statementRound, current, run_bind, run_inspect] at h
  split at h
  · cases h
  · next hk =>
      simp only [run_bind, run_advance, run_pure] at h
      split at h
      · cases h
      · next value r hr =>
          cases h
          have hp : 0 < p.weight := State.weight_pos_of_current (by simp_all)
          have hle := (statementWith expression).weight_le hr
          rcases Nat.eq_zero_or_pos r.weight with hz | hz
          · have := r.weight_advance_le
            omega
          · have := r.weight_advance_lt hz
            omega

/-- Statements up to a token that ends the sequence, or to the end of the text. -/
def statementsUntil (ends : TokenKind → Bool) : Step Block :=
  iterate (statementRound expression ends) (statementRound_shrinks expression ends) []

/-- A block, from its opening brace to its closing one or to the end of the text. -/
def blockWith : Step Block := do
  advance
  statementsUntil expression (· = .rbrace)

/-- A whole program. -/
def programWith : Step Program := do
  let statements ← statementsUntil expression (fun _ => false)
  return ⟨statements⟩

end Statements

section Lists

variable (expression : Reader)

/-- Reads one more expression after a comma, or the closing token. -/
def expressionRound (close : TokenKind) (read : List Expr) :
    Step (Round (List Expr) (Option (List Expr))) := do
  if (← peekKind) = .comma then
    advance
    advance
    match ← expression .lowest with
    | none => return .done none
    | some e => return .again (read ++ [e])
  else if ← expectPeek close then
    return .done (some read)
  else
    return .done none

theorem expressionRound_shrinks (close : TokenKind) (read : List Expr) :
    Shrinks (expressionRound expression close read) := by
  intro p s q h
  simp only [expressionRound, peekKind, run_bind, run_inspect] at h
  split at h
  · next hk =>
      simp only [run_bind, run_advance] at h
      split at h
      · cases h
      · next value r hr =>
          have hle := (expression .lowest).weight_le hr
          have h1 := p.weight_advance_lt (State.weight_pos_of_peek (by simp [hk]))
          have h2 := p.advance.weight_advance_le
          cases value with
          | none => cases h
          | some e =>
              cases h
              omega
  · simp only [run_bind, run_expectPeek] at h
    split at h
    · cases h
    · split at h <;> cases h

/-- Expressions with commas between them, from the opening token to the closing one. -/
def expressionListWith (close : TokenKind) : Step (Option (List Expr)) := do
  if (← peekKind) = close then
    advance
    return some []
  else
    advance
    match ← expression .lowest with
    | none => return none
    | some e =>
        iterate (expressionRound expression close) (expressionRound_shrinks expression close) [e]

end Lists

/-- Reads one more parameter after a comma, or the closing parenthesis. -/
def parameterRound (read : List String) : Step (Round (List String) (Option (List String))) := do
  if (← peekKind) = .comma then
    advance
    if ← expectPeek .ident then
      let name ← current
      return .again (read ++ [name.text])
    else
      return .done none
  else if ← expectPeek .rparen then
    return .done (some read)
  else
    return .done none

theorem parameterRound_shrinks (read : List String) : Shrinks (parameterRound read) := by
  intro p s q h
  simp only [parameterRound, peekKind, run_bind, run_inspect] at h
  split at h
  · next hk =>
      simp only [run_bind, run_advance, run_expectPeek] at h
      have h1 := p.weight_advance_lt (State.weight_pos_of_peek (by simp [hk]))
      have h2 := p.advance.weight_advance_le
      split at h
      · cases h
      · next b r hr =>
          split at hr <;> cases hr
          · cases h
            omega
          · cases h
  · simp only [run_bind, run_expectPeek] at h
    split at h
    · cases h
    · split at h <;> cases h

/-- The parameters of a function, from the opening parenthesis to the closing one. -/
def parameters : Step (Option (List String)) := do
  if (← peekKind) = .rparen then
    advance
    return some []
  else if ← expectPeek .ident then
    let name ← current
    iterate parameterRound parameterRound_shrinks [name.text]
  else
    return none

/-- A numeral. -/
def integerLiteral (numeral : String) : Step (Option Expr) :=
  if numeral.length > longestNumeral then
    halt .numeralTooLong
  else
    let value := Nat.ofDigitChars 10 numeral.toList 0
    if maxInteger < (value : Int) then do
      report (.integerTooLarge numeral)
      return none
    else
      return some (.integer value)

section Expressions

variable (expression : Reader)

/-- An operator in front of its operand. -/
def unary : Step (Option Expr) := do
  let op ← current
  advance
  let right ← expression .unary
  return right.map (.unary op.text)

/-- An expression in parentheses. -/
def grouped : Step (Option Expr) := do
  advance
  let e ← expression .lowest
  if ← expectPeek .rparen then
    return e
  else
    return none

/-- The branches of a conditional, from the opening brace of the first.  A condition that failed
has been reported, and the branches are read all the same. -/
def branches (condition : Option Expr) : Step (Option Expr) := do
  let consequence ← blockWith expression
  if (← peekKind) = .elseWord then
    advance
    if ← expectPeek .lbrace then
      let alternative ← blockWith expression
      return condition.map fun c => .conditional c consequence (some alternative)
    else
      return none
  else
    return condition.map fun c => .conditional c consequence none

/-- `if` condition in parentheses, block, and perhaps `else` block. -/
def conditional : Step (Option Expr) := do
  if ← expectPeek .lparen then
    advance
    let condition ← expression .lowest
    if ← expectPeek .rparen then
      if ← expectPeek .lbrace then
        branches expression condition
      else
        return none
    else
      return none
  else
    return none

/-- `fn` parameters in parentheses, block. -/
def functionLiteral : Step (Option Expr) := do
  if ← expectPeek .lparen then
    match ← parameters with
    | none => return none
    | some ps =>
        if ← expectPeek .lbrace then
          let body ← blockWith expression
          return some (.function ps body)
        else
          return none
  else
    return none

/-- Expressions in brackets. -/
def arrayLiteral : Step (Option Expr) := do
  let elements ← expressionListWith expression .rbracket
  return elements.map .array

/-- Reads one more pair, or the closing brace.  A key that was read before keeps its place and takes
the new value; whether it was is looked up before anything else is read. -/
def pairRound [Capacity] (read : List (Expr × Expr)) :
    Step (Round (List (Expr × Expr)) (Option Expr)) := do
  if (← peekKind) = .rbrace then
    advance
    return .done (some (.hash read))
  else
    advance
    let key ← expression .lowest
    if ← expectPeek .colon then
      advance
      let value ← expression .lowest
      match key, value with
      | some k, some v =>
          if !Capacity.hashable k then
            halt .nestedTooDeeply
          else if (← peekKind) = .rbrace then
            return .again (Table.put k v read)
          else if ← expectPeek .comma then
            return .again (Table.put k v read)
          else
            return .done none
      | _, _ => return .done none
    else
      return .done none

theorem pairRound_shrinks [Capacity] (read : List (Expr × Expr)) :
    Shrinks (pairRound expression read) := by
  intro p s q h
  simp only [pairRound, peekKind, run_bind, run_inspect] at h
  split at h
  · cases h
  · simp only [run_bind, run_advance, run_expectPeek] at h
    split at h
    · cases h
    · next key r hr =>
        have hp := p.weight_advance_le
        have hk := (expression .lowest).weight_le hr
        by_cases hc : r.peek.kind = .colon
        · have h1 := r.weight_advance_lt (State.weight_pos_of_peek (by simp [hc]))
          have h2 := r.advance.weight_advance_le
          simp only [hc, if_true, run_bind, run_advance] at h
          split at h
          · cases h
          · next value t ht =>
              have hv := (expression .lowest).weight_le ht
              have ha := t.weight_advance_le
              split at h
              · split at h
                · cases h
                · simp only [run_bind, run_inspect] at h
                  split at h
                  · cases h
                    omega
                  · simp only [run_bind, run_expectPeek] at h
                    split at h
                    · cases h
                    · next b u hu =>
                        split at hu <;> cases hu
                        · cases h
                          omega
                        · cases h
              · cases h
        · simp only [hc, if_false] at h
          cases h

/-- Pairs in braces. -/
def hashLiteral [Capacity] : Step (Option Expr) :=
  iterate (pairRound expression) (pairRound_shrinks expression) []

/-- The expression that the current token starts. -/
def operand [Capacity] : Step (Option Expr) := do
  let token ← current
  match token.kind with
  | .ident => return some (.ident token.text)
  | .int => integerLiteral token.text
  | .string => return some (.string token.text)
  | .trueWord => return some (.boolean true)
  | .falseWord => return some (.boolean false)
  | .bang => unary expression
  | .minus => unary expression
  | .lparen => grouped expression
  | .ifWord => conditional expression
  | .functionWord => functionLiteral expression
  | .lbracket => arrayLiteral expression
  | .lbrace => hashLiteral expression
  | kind => do
      report (.noExpression kind)
      return none

/-- Continues an expression, from the token that continues it. -/
def suffix (left : Expr) : Suffix → Step (Option Expr)
  | .operator => do
      let op ← current
      advance
      let right ← expression op.kind.precedence
      return right.map (.binary left op.text)
  | .call => do
      let arguments ← expressionListWith expression .rparen
      return arguments.map (.call left)
  | .index => do
      advance
      let subscript ← expression .lowest
      if ← expectPeek .rbracket then
        return subscript.map (.index left)
      else
        return none

/-- Continues an expression as long as the next token binds more tightly than `level`. -/
def suffixRound (level : Precedence) (left : Expr) : Step (Round Expr (Option Expr)) := do
  let kind ← peekKind
  if level.rank < kind.precedence.rank then
    match kind.suffix? with
    | none => return .done (some left)
    | some way =>
        advance
        match ← suffix expression left way with
        | none => return .done none
        | some e => return .again e
  else
    return .done (some left)

theorem suffixRound_shrinks (level : Precedence) (left : Expr) :
    Shrinks (suffixRound expression level left) := by
  intro p s q h
  simp only [suffixRound, peekKind, run_bind, run_inspect] at h
  split at h
  · split at h
    · cases h
    · next way hw =>
        simp only [run_bind, run_advance] at h
        split at h
        · cases h
        · next value r hr =>
            have hle := (suffix expression left way).weight_le hr
            have h1 := p.weight_advance_lt
              (State.weight_pos_of_peek (TokenKind.ne_eof_of_suffix? hw))
            cases value with
            | none => cases h
            | some e =>
                cases h
                omega
  · cases h

/-- An expression that binds more tightly than `level`. -/
def expressionWith [Capacity] (level : Precedence) : Step (Option Expr) := do
  match ← operand expression with
  | none => return none
  | some left => iterate (suffixRound expression level) (suffixRound_shrinks expression level) left

end Expressions

section Nesting

variable [Capacity]

/-- Reads expressions nested at most so deep. -/
def expressionWithin : Nat → Reader
  | 0, _ => halt .nestedTooDeeply
  | depth + 1, level => expressionWith (expressionWithin depth) level

/-- An expression that binds more tightly than `level`. -/
def expression : Reader :=
  expressionWithin Capacity.nesting

/-- A statement. -/
def statement : Step (Option Stmt) :=
  statementWith expression

/-- A block, from its opening brace. -/
def block : Step Block :=
  blockWith expression

/-- A program. -/
def program : Step Program :=
  programWith expression

/-- Expressions with commas between them, from the opening token to the closing one. -/
def expressionList (close : TokenKind) : Step (Option (List Expr)) :=
  expressionListWith expression close

end Nesting

end Parser

/-- What a text was read as. -/
structure Parsed where
  program : Program
  errors : List SyntaxError
  deriving DecidableEq

/-- Reads a program.  It is partial if there were errors. -/
def parse [Parser.Capacity] (source : String) : Except Parser.Fault Parsed :=
  match Parser.program.run (.ofString source) with
  | .error fault => .error fault
  | .ok (program, last) => .ok ⟨program, last.errors⟩

end Scriptlet
