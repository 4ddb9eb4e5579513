import Scriptlet.Proofs.Parser.Moving
import Scriptlet.Proofs.Parser.Reading

/-!
# Pulling tokens

A parser pulls its tokens from a scanner, one at a time and never more than it needs.  What it has at hand is
told here by the list of all tokens of the text, which nobody has to make.

**The endless sequence.**  A parser may go on at the end of the text, as it does after some errors.  The end
token then comes again and again, always at the same position.

**Places.**  `p.Stands source k`: the current token is the `k`-th of the endless sequence, the token after it
is the next one, and the scanner yields those that follow.  Every parser of the text stands somewhere.

**Operations.**  Whatever can be asked of a parser: to look at its tokens, to move on, or to read a phrase of
any kind, wherever it stands and whether or not a phrase of that kind is there.

**Results.**
* `Scanner.next_next_of_eof`: nothing changes any more at the end of the text.
* `Scanner.unending_tokens`: pulling tokens one at a time yields the endless sequence.
* `Operation.stands_step`: how an operation moves the place.
* `progresses_trace`: the places of a parser through a sequence of operations, from any place on.
* `places_follow_operations`: the places of a parser from the start of the text on.
-/

namespace Scriptlet

/-- One of several tokens, the last of which comes again and again. -/
def unending (ts : List Token) (k : Nat) : Option Token :=
  ts[k]?.or ts.getLast?

namespace Scanner

/-- The scanner after so many more tokens. -/
def pulled (s : Scanner) : Nat → Scanner
  | 0 => s
  | n + 1 => s.next.2.pulled n

/-- Nothing is skipped where nothing is ahead. -/
theorem skipSpace_of_rest {s : Scanner} (h : s.rest = []) : s.skipSpace = s := by
  obtain ⟨before, rest, position⟩ := s
  cases h
  rfl

/-- At the end of the text, the next token and the scanner after it stay the same. -/
theorem next_next_of_eof {s : Scanner} (h : s.next.1.kind = .eof) : s.next.2.next = s.next := by
  have hafter : s.next.2 = s.skipSpace := by
    rw [next, tokenHere] at h ⊢
    split at h
    · rfl
    · exact absurd h (Lexeme.kind_ne_eof _ _)
  have hskip : s.skipSpace.skipSpace = s.skipSpace :=
    skipSpace_of_rest (hafter ▸ s.next_rest_of_eof h)
  rw [hafter, next, hskip]
  rfl

theorem pulled_of_eof {s : Scanner} (h : s.next.1.kind = .eof) (n : Nat) :
    (s.pulled n).next.1 = s.next.1 := by
  induction n generalizing s with
  | zero => rfl
  | succ n ih =>
      have hnext := next_next_of_eof h
      rw [pulled, ih (by rw [hnext, h]), hnext]

/-- The last token is the end token. -/
theorem getLast?_tokens (s : Scanner) : ∃ t, s.tokens.getLast? = some t ∧ t.kind = .eof := by
  by_cases h : s.next.1.kind = .eof
  · exact ⟨s.next.1, by rw [tokens_of_eof h, List.getLast?_singleton], h⟩
  · have hlt := s.next_rest_lt h
    obtain ⟨t, ht, hk⟩ := getLast?_tokens s.next.2
    refine ⟨t, ?_, hk⟩
    rw [tokens_of_ne_eof h, List.getLast?_cons, ht]
    rfl
termination_by s.rest.length

/-- Token for token, what is pulled from a scanner is the endless sequence of the tokens ahead. -/
theorem unending_tokens (s : Scanner) (k : Nat) :
    unending s.tokens k = some (s.pulled k).next.1 := by
  by_cases h : s.next.1.kind = .eof
  · rw [tokens_of_eof h, pulled_of_eof h]
    cases k with
    | zero => rfl
    | succ k => rfl
  · rw [tokens_of_ne_eof h]
    cases k with
    | zero => rfl
    | succ k =>
        -- There are more tokens, so the last one is the last of the others.
        obtain ⟨last, hlast, -⟩ := getLast?_tokens s.next.2
        have hmore := unending_tokens s.next.2 k
        rw [unending, hlast] at hmore
        rw [unending, List.getElem?_cons_succ, List.getLast?_cons, hlast, pulled]
        exact hmore
termination_by k

end Scanner

namespace Parser

open Step

section Places

variable {p : State} {source : String} {k : Nat}

/-- The place of a parser in the endless sequence of the tokens of a text: its two tokens are there, and the
scanner yields those that follow. -/
structure State.Stands (p : State) (source : String) (k : Nat) : Prop where
  current : unending (tokenize source) k = some p.current
  peek : unending (tokenize source) (k + 1) = some p.peek
  ahead : ∀ n, unending (tokenize source) (k + 2 + n) = some (p.scanner.pulled n).next.1

/-- A new parser stands at the first token. -/
theorem State.stands_ofString (source : String) : (State.ofString source).Stands source 0 := by
  have htokens : ∀ k, unending (tokenize source) k =
      some ((Scanner.ofString source).pulled k).next.1 :=
    (Scanner.ofString source).unending_tokens
  rw [State.ofString_eq_reading]
  generalize Scanner.ofString source = s at htokens
  refine ⟨htokens 0, htokens 1, fun n => ?_⟩
  rw [Nat.add_comm]
  exact htokens (n + 2)

theorem State.Stands.advance (hp : p.Stands source k) : p.advance.Stands source (k + 1) := by
  refine ⟨hp.peek, hp.ahead 0, fun n => ?_⟩
  have hplace : k + 1 + 2 + n = k + 2 + (n + 1) := by omega
  rw [hplace, hp.ahead (n + 1)]
  rfl

theorem State.Stands.moved (hp : p.Stands source k) (n : Nat) (more : List SyntaxError) :
    (p.moved n more).Stands source (k + n) := by
  have hafter : (p.after n).Stands source (k + n) := by
    induction n with
    | zero => exact hp
    | succ n ih => exact ih.advance
  exact ⟨hafter.current, hafter.peek, hafter.ahead⟩

end Places

section Operations

/-- The phrases a parser can be asked to read, in any state.  An operand is whatever the current token starts,
and a suffix is what continues an expression. -/
inductive Production where
  | program
  | statement
  | letStatement
  | returnStatement
  | expressionStatement
  | block
  | expression (level : Precedence)
  | expressionList (close : TokenKind)
  | parameters
  | operand
  | integerLiteral
  | unary
  | grouped
  | conditional
  | functionLiteral
  | arrayLiteral
  | hashLiteral
  | suffix (left : Expr) (way : Suffix)

/-- The reader of a phrase, with expressions in it nested at most so deep.  It tells whether there was one;
programs and blocks may be empty, so these there always are. -/
def Production.step (depth : Nat) : Production → Step Bool
  | program => (fun _ => true) <$> programWith (expressionWithin depth)
  | statement => Option.isSome <$> statementWith (expressionWithin depth)
  | letStatement => Option.isSome <$> Parser.letStatement (expressionWithin depth)
  | returnStatement => Option.isSome <$> Parser.returnStatement (expressionWithin depth)
  | expressionStatement => Option.isSome <$> Parser.expressionStatement (expressionWithin depth)
  | block => (fun _ => true) <$> blockWith (expressionWithin depth)
  | expression level => Option.isSome <$> expressionWith (expressionWithin depth) level
  | expressionList close => Option.isSome <$> expressionListWith (expressionWithin depth) close
  | parameters => Option.isSome <$> Parser.parameters
  | operand => Option.isSome <$> Parser.operand (expressionWithin depth)
  | integerLiteral => do return (← Parser.integerLiteral (← current).text).isSome
  | unary => Option.isSome <$> Parser.unary (expressionWithin depth)
  | grouped => Option.isSome <$> Parser.grouped (expressionWithin depth)
  | conditional => Option.isSome <$> Parser.conditional (expressionWithin depth)
  | functionLiteral => Option.isSome <$> Parser.functionLiteral (expressionWithin depth)
  | arrayLiteral => Option.isSome <$> Parser.arrayLiteral (expressionWithin depth)
  | hashLiteral => Option.isSome <$> Parser.hashLiteral (expressionWithin depth)
  | suffix left way => Option.isSome <$> Parser.suffix (expressionWithin depth) left way

/-- What a parser can be asked to do. -/
inductive Operation where
  | advance
  | check (kind : TokenKind)
  | checkPeek (kind : TokenKind)
  | expectPeek (wanted : TokenKind)
  | read (production : Production) (depth : Nat)

namespace Operation

/-- Does what is asked, and tells whether it succeeded. -/
def step : Operation → Step Bool
  | advance => (fun _ => true) <$> Step.advance
  | check kind => inspect fun p => p.current.kind = kind
  | checkPeek kind => inspect fun p => p.peek.kind = kind
  | expectPeek wanted => Step.expectPeek wanted
  | read production depth => production.step depth

/-- How far an operation moves, where that does not depend on the text: looking does not move, and neither
does expecting in vain. -/
def shift? : Operation → Bool → Option Nat
  | advance, _ => some 1
  | check _, _ => some 0
  | checkPeek _, _ => some 0
  | expectPeek _, succeeded => some (if succeeded then 1 else 0)
  | read _ _, _ => none

end Operation

theorem Production.built_step (depth : Nat) (production : Production) :
    Built (production.step depth) := by
  have h := built_expressionWithin depth
  cases production with
  | program => exact (built_programWith h).map _
  | statement => exact (built_statementWith h).map _
  | letStatement => exact (built_letStatement h).map _
  | returnStatement => exact (built_returnStatement h).map _
  | expressionStatement => exact (built_expressionStatement h).map _
  | block => exact (built_blockWith h).map _
  | expression level => exact (built_expressionWith h level).map _
  | expressionList close => exact (built_expressionListWith h close).map _
  | parameters => exact built_parameters.map _
  | operand => exact (built_operand h).map _
  | integerLiteral => exact .current (fun _ => rfl) fun _ => (built_integerLiteral _).map _
  | unary => exact (built_unary h).map _
  | grouped => exact (built_grouped h).map _
  | conditional => exact (built_conditional h).map _
  | functionLiteral => exact (built_functionLiteral h).map _
  | arrayLiteral => exact ((built_expressionListWith h _).map _).map _
  | hashLiteral => exact (Built.iterate (built_pairRound h) []).map _
  | suffix left way => exact (built_suffix h left way).map _

variable {p q : State} {source : String} {k : Nat} {op : Operation} {succeeded : Bool}

/-- The place after a move that is as far as it should be. -/
theorem State.Stands.after_shift {shift : Option Nat} (n : Nat) (hq : q.Stands source (k + n))
    (hshift : ∀ m, shift = some m → n = m) :
    ∃ k', k ≤ k' ∧ q.Stands source k' ∧ ∀ m, shift = some m → k' = k + m := by
  refine ⟨k + n, Nat.le_add_right k n, hq, fun m hm => ?_⟩
  rw [hshift m hm]

/-- How an operation moves the place: never back, and as far as it should. -/
theorem Operation.stands_step (hp : p.Stands source k) (hrun : op.step.run p = .ok (succeeded, q)) :
    ∃ k', k ≤ k' ∧ q.Stands source k' ∧ ∀ n, op.shift? succeeded = some n → k' = k + n := by
  cases op with
  | advance =>
      cases hrun
      exact hp.advance.after_shift 1 fun _ => Option.some.inj
  | check kind =>
      cases hrun
      exact hp.after_shift 0 fun _ => Option.some.inj
  | checkPeek kind =>
      cases hrun
      exact hp.after_shift 0 fun _ => Option.some.inj
  | expectPeek wanted =>
      rw [step, run_expectPeek] at hrun
      split at hrun
      · cases hrun
        exact hp.advance.after_shift 1 fun _ => Option.some.inj
      · cases hrun
        exact (hp.moved 0 [_]).after_shift 0 fun _ => Option.some.inj
  | read production depth =>
      obtain ⟨n, more, rfl⟩ := (production.built_step depth).moves hrun
      exact (hp.moved n more).after_shift n fun _ hm => nomatch hm

end Operations

section Traces

/-- What operations come to, one after the other: whether each succeeded, and the state it left.  The parser
may stop for good, and then nothing more is asked of it. -/
def trace (p : State) : List Operation → List (Operation × Bool × State)
  | [] => []
  | op :: ops =>
      match op.step.run p with
      | .error _ => []
      | .ok (succeeded, q) => (op, succeeded, q) :: trace q ops

/-- The states that were left stand where they should, if the one before stood at a given place.  The place
never goes back. -/
def Progresses (source : String) : Nat → List (Operation × Bool × State) → Prop
  | _, [] => True
  | k, (op, succeeded, q) :: rest =>
      ∃ k', k ≤ k' ∧ (∀ n, op.shift? succeeded = some n → k' = k + n) ∧ q.Stands source k' ∧
        Progresses source k' rest

theorem progresses_trace {p : State} {source : String} {k : Nat} (hp : p.Stands source k)
    (ops : List Operation) : Progresses source k (trace p ops) := by
  induction ops generalizing p k with
  | nil => exact trivial
  | cons op ops ih =>
      cases hrun : op.step.run p with
      | error fault => simp only [trace, hrun, Progresses]
      | ok result =>
          obtain ⟨succeeded, q⟩ := result
          obtain ⟨k', hle, hq, hshift⟩ := op.stands_step hp hrun
          simp only [trace, hrun, Progresses]
          exact ⟨k', hle, hshift, hq, ih hq⟩

end Traces

/-- Let a parser of any text be asked to do anything, in any order.  The text has an end token, and it is the
last one.  Before the first operation and after each one, the parser stands at some place in the endless
sequence of the tokens: the current token, the one after it and those that the scanner will yield are the
ones from there on, with their positions.  The place never goes back.  Moving on and expecting a token that
is there move it by one; looking at a token and expecting one in vain leave it. -/
theorem places_follow_operations (source : String) (ops : List Operation) :
    (∃ last, (tokenize source).getLast? = some last ∧ last.kind = .eof) ∧
      (State.ofString source).Stands source 0 ∧
      Progresses source 0 (trace (.ofString source) ops) := by
  have hstart := State.stands_ofString source
  exact ⟨Scanner.getLast?_tokens _, hstart, progresses_trace hstart ops⟩

/-- At the end of the text, the end token is read, expected and moved on to again and again. -/
example :
    let ops := [.read .program 1, .expectPeek .semicolon, .advance, .read .operand 0, .expectPeek .eof]
    let last : Token := ⟨.eof, "", ⟨1, 4⟩⟩
    (trace (.ofString "a ;") ops).map (fun e => (e.2.1, e.2.2.current, e.2.2.peek)) =
      [(true, last, last), (false, last, last), (true, last, last), (false, last, last),
        (true, last, last)] := by
  decide +kernel

end Parser

end Scriptlet
