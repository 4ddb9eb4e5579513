import Scriptlet.Scanner

/-!
# Parser states and steps

**State.**  A parser looks at two tokens, the current one and the one after it, and holds the
scanner that will yield the next.  Syntax errors are collected in the order they are found.

**Steps.**  A step takes a state to a value and a new state.  No step goes back in the text: each
carries the proof that it never adds to the weight of the state, which measures what is left to
read.  Two things stop a parser for good, a numeral that is too long to be read and nesting that
is too deep; they are faults of a step.

**Results.**
* `State.weight_advance_lt`: advancing takes weight away, unless nothing is left.
* `Step.iterate`: a loop whose every continuing round takes weight away comes to an end.
-/

namespace Scriptlet

/-- What is wrong with a text. -/
inductive SyntaxError where
  /-- Another token was needed next. -/
  | expected (wanted found : TokenKind)
  /-- No expression starts with this token. -/
  | noExpression (found : TokenKind)
  /-- A numeral denotes an integer that is too large. -/
  | integerTooLarge (numeral : String)
  deriving DecidableEq, Repr

/-- The wording of a syntax error. -/
def SyntaxError.message : SyntaxError → String
  | expected wanted found =>
      "expected next token to be " ++ wanted.display ++ ", got " ++ found.display ++ " instead"
  | noExpression found => "no prefix parse function for " ++ found.display ++ " found"
  | integerTooLarge numeral => "could not parse " ++ numeral ++ " as integer"

namespace Parser

/-- What stops a parser for good. -/
inductive Fault where
  /-- A numeral has more digits than can be read. -/
  | numeralTooLong
  /-- Expressions are nested too deeply. -/
  | nestedTooDeeply
  deriving DecidableEq, Repr

/-- The state of a parser. -/
structure State where
  scanner : Scanner
  current : Token
  peek : Token
  errors : List SyntaxError
  deriving DecidableEq, Repr

namespace State

/-- Moves on by one token. -/
def advance (p : State) : State :=
  ⟨p.scanner.next.2, p.peek, p.scanner.next.1, p.errors⟩

/-- Adds a syntax error. -/
def report (p : State) (e : SyntaxError) : State :=
  { p with errors := p.errors ++ [e] }

/-- The state at the start of a text. -/
def ofString (source : String) : State :=
  let (first, s) := (Scanner.ofString source).next
  let (second, s) := s.next
  ⟨s, first, second, []⟩

/-- What is left to read: three for every character, and something for the two tokens at hand
unless they are end tokens. -/
def weight (p : State) : Nat :=
  3 * p.scanner.rest.length + (if p.peek.kind = .eof then 0 else 2) +
    (if p.current.kind = .eof then 0 else 1)

@[simp] theorem weight_report (p : State) (e : SyntaxError) : (p.report e).weight = p.weight :=
  rfl

@[simp] theorem current_advance (p : State) : p.advance.current = p.peek := rfl

@[simp] theorem errors_advance (p : State) : p.advance.errors = p.errors := rfl

theorem weight_advance_le (p : State) : p.advance.weight ≤ p.weight := by
  by_cases h : p.scanner.next.1.kind = .eof
  · have hr := p.scanner.next_rest_of_eof h
    simp only [weight, advance, h, hr, List.length_nil]
    grind
  · have hr := p.scanner.next_rest_lt h
    simp only [weight, advance, h]
    grind

theorem weight_advance_lt (p : State) (hp : 0 < p.weight) : p.advance.weight < p.weight := by
  by_cases h : p.scanner.next.1.kind = .eof
  · have hr := p.scanner.next_rest_of_eof h
    simp only [weight, advance, h, hr, List.length_nil] at hp ⊢
    grind
  · have hr := p.scanner.next_rest_lt h
    simp only [weight, advance, h]
    grind

theorem weight_pos_of_peek {p : State} (h : p.peek.kind ≠ .eof) : 0 < p.weight := by
  simp only [weight, h, if_false]
  omega

theorem weight_pos_of_current {p : State} (h : p.current.kind ≠ .eof) : 0 < p.weight := by
  simp only [weight, h, if_false]
  omega

end State

/-- A step of a parser; it never adds to the weight of the state. -/
structure Step (α : Type) where
  run : State → Except Fault (α × State)
  weight_le : ∀ {p : State} {a : α} {q : State}, run p = .ok (a, q) → q.weight ≤ p.weight

namespace Step

variable {α β σ : Type}

@[ext] theorem ext {s t : Step α} (h : ∀ p, s.run p = t.run p) : s = t := by
  cases s
  cases t
  simp only [mk.injEq]
  exact funext h

instance : Monad Step where
  pure a :=
    { run := fun p => .ok (a, p)
      weight_le := fun h => by cases h; exact Nat.le_refl _ }
  bind s f :=
    { run := fun p =>
        match s.run p with
        | .error fault => .error fault
        | .ok (a, q) => (f a).run q
      weight_le := fun {p b r} h => by
        split at h
        · cases h
        · next a q hs => exact Nat.le_trans ((f a).weight_le h) (s.weight_le hs) }

theorem run_pure (a : α) (p : State) : (pure a : Step α).run p = .ok (a, p) := rfl

theorem run_bind (s : Step α) (f : α → Step β) (p : State) :
    (s >>= f).run p =
      match s.run p with
      | .error fault => .error fault
      | .ok (a, q) => (f a).run q := rfl

/-- Looks at the state. -/
def inspect (f : State → α) : Step α where
  run p := .ok (f p, p)
  weight_le h := by cases h; exact Nat.le_refl _

/-- Moves on by one token. -/
def advance : Step Unit where
  run p := .ok ((), p.advance)
  weight_le h := by cases h; exact State.weight_advance_le _

/-- Records a syntax error. -/
def report (e : SyntaxError) : Step Unit where
  run p := .ok ((), p.report e)
  weight_le h := by cases h; exact Nat.le_refl _

/-- Stops for good. -/
def halt (fault : Fault) : Step α where
  run _ := .error fault
  weight_le h := by cases h

theorem run_inspect (f : State → α) (p : State) : (inspect f).run p = .ok (f p, p) := rfl

theorem run_advance (p : State) : advance.run p = .ok ((), p.advance) := rfl

theorem run_report (e : SyntaxError) (p : State) : (report e).run p = .ok ((), p.report e) := rfl

theorem run_halt (fault : Fault) (p : State) : (halt fault : Step α).run p = .error fault := rfl

/-- The current token. -/
def current : Step Token :=
  inspect State.current

/-- The kind of the token after the current one. -/
def peekKind : Step TokenKind :=
  inspect fun p => p.peek.kind

/-- Moves on if the next token is of the wanted kind, and records an error if not. -/
def expectPeek (wanted : TokenKind) : Step Bool := do
  let found ← peekKind
  if found = wanted then
    advance
    return true
  else
    report (.expected wanted found)
    return false

theorem run_expectPeek (wanted : TokenKind) (p : State) :
    (expectPeek wanted).run p =
      if p.peek.kind = wanted then .ok (true, p.advance)
      else .ok (false, p.report (.expected wanted p.peek.kind)) := by
  simp only [expectPeek, peekKind, run_bind, run_inspect]
  split <;> rfl

/-- What a round of a loop comes to. -/
inductive Round (σ α : Type) where
  | again (state : σ)
  | done (result : α)

/-- A round that wants to be repeated has taken weight away. -/
def Shrinks (round : Step (Round σ α)) : Prop :=
  ∀ {p : State} {s : σ} {q : State}, round.run p = .ok (.again s, q) → q.weight < p.weight

/-- Runs rounds until one is done. -/
def iterateRun (round : σ → Step (Round σ α)) (shrinks : ∀ s, Shrinks (round s))
    (s : σ) (p : State) : Except Fault (α × State) :=
  match _h : (round s).run p with
  | .error fault => .error fault
  | .ok (.done a, q) => .ok (a, q)
  | .ok (.again s', q) => iterateRun round shrinks s' q
termination_by p.weight
decreasing_by exact shrinks s _h

theorem weight_iterateRun_le (round : σ → Step (Round σ α)) (shrinks : ∀ s, Shrinks (round s))
    (s : σ) (p : State) {a : α} {q : State}
    (h : iterateRun round shrinks s p = .ok (a, q)) : q.weight ≤ p.weight := by
  fun_induction iterateRun round shrinks s p with
  | case1 => cases h
  | case2 s p b r hr =>
      cases h
      exact (round s).weight_le hr
  | case3 s p s' r hr ih => exact Nat.le_trans (ih h) ((round s).weight_le hr)

/-- The loop that starts with `s` and repeats rounds until one is done. -/
def iterate (round : σ → Step (Round σ α)) (shrinks : ∀ s, Shrinks (round s)) (s : σ) :
    Step α where
  run := iterateRun round shrinks s
  weight_le h := weight_iterateRun_le round shrinks s _ h

theorem run_iterate (round : σ → Step (Round σ α)) (shrinks : ∀ s, Shrinks (round s))
    (s : σ) (p : State) :
    (iterate round shrinks s).run p =
      match (round s).run p with
      | .error fault => .error fault
      | .ok (.done a, q) => .ok (a, q)
      | .ok (.again s', q) => (iterate round shrinks s').run q := by
  show iterateRun round shrinks s p = _
  rw [iterateRun]
  split <;> simp_all [iterate]

end Step

end Parser

end Scriptlet
