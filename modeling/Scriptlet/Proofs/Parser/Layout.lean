import Scriptlet.Proofs.Parser.Building
import Scriptlet.Proofs.Parser.Reading
import Scriptlet.Session

/-!
# Layout does not matter

Two texts with the same words, token by token, are read and run alike: neither the white space in them
nor the positions of their tokens have any part in it.

**Two runs.**  Two states of a parser are *alike* if they hold the same words, at hand and ahead, and
the same errors.  A step is *blind* to layout if from states that are alike it yields the same value
and leaves states that are alike, or stops for good with the same fault.

**Method.**  Looking at the current token is not blind, for the token has a position; it is blind as
soon as what is done with the token depends on its word alone (`Blind.current`).  Sequencing and loops
keep steps blind, so everything that is built from primitive steps is blind (`Built.blind`).
Reading that fails is covered throughout: errors and faults are part of what is compared.

**Results.**
* `blind_program`: reading a program is blind to layout.
* `run_eq_of_same_words`: texts with the same words are read and run alike.
-/

namespace Scriptlet

namespace Scanner

/-- The next token's word is the first one ahead, or that of the end token. -/
theorem word_next_eq (s : Scanner) : s.next.1.word = s.words.headD ⟨.eof, ""⟩ := by
  cases h : s.words with
  | nil => exact word_next_of_eof ((s.words_eq_nil_iff).mp h)
  | cons w ws => exact word_next h

theorem words_ofString {a b : String}
    (h : (tokenize a).map Token.word = (tokenize b).map Token.word) :
    (ofString a).words = (ofString b).words := by
  rw [tokenize, tokenize, map_word_tokens, map_word_tokens] at h
  exact List.append_cancel_right h

end Scanner

namespace Parser

open Step

variable {α β σ : Type}

/-- The states hold the same words and the same errors. -/
structure State.Alike (p q : State) : Prop where
  current : p.current.word = q.current.word
  peek : p.peek.word = q.peek.word
  ahead : p.scanner.words = q.scanner.words
  errors : p.errors = q.errors

namespace State

variable {p q : State}

theorem Alike.advance (h : p.Alike q) : p.advance.Alike q.advance := by
  refine ⟨h.peek, ?_, ?_, h.errors⟩
  · show p.scanner.next.1.word = q.scanner.next.1.word
    rw [Scanner.word_next_eq, Scanner.word_next_eq, h.ahead]
  · show p.scanner.next.2.words = q.scanner.next.2.words
    rw [Scanner.words_next, Scanner.words_next, h.ahead]

theorem Alike.report (h : p.Alike q) (e : SyntaxError) : (p.report e).Alike (q.report e) := by
  refine ⟨h.current, h.peek, h.ahead, ?_⟩
  show p.errors ++ [e] = q.errors ++ [e]
  rw [h.errors]

theorem Alike.kind_peek (h : p.Alike q) : p.peek.kind = q.peek.kind :=
  congrArg Word.kind h.peek

/-- Scanners with the same words ahead are read alike. -/
theorem alike_reading {s t : Scanner} (h : s.words = t.words) (errors : List SyntaxError) :
    (reading s errors).Alike (reading t errors) := by
  refine ⟨?_, ?_, ?_, rfl⟩
  · show s.next.1.word = t.next.1.word
    rw [Scanner.word_next_eq, Scanner.word_next_eq, h]
  · show s.next.2.next.1.word = t.next.2.next.1.word
    rw [Scanner.word_next_eq, Scanner.word_next_eq, s.words_next, t.words_next, h]
  · show s.next.2.next.2.words = t.next.2.next.2.words
    rw [s.next.2.words_next, s.words_next, t.next.2.words_next, t.words_next, h]

end State

/-- The second outcome is that of the first: the same fault, or the same value in a state alike. -/
def SameOutcome : Except Fault (α × State) → Except Fault (α × State) → Prop
  | .error fault, other => other = .error fault
  | .ok (a, p), other => ∃ q, other = .ok (a, q) ∧ p.Alike q

theorem SameOutcome.map_eq {r r' : Except Fault (α × State)} (h : SameOutcome r r')
    (f : α → List SyntaxError → β) :
    (r.map fun x => f x.1 x.2.errors) = r'.map fun x => f x.1 x.2.errors := by
  cases r with
  | error fault =>
      have hr' : r' = .error fault := h
      rw [hr']
  | ok result =>
      obtain ⟨q, rfl, halike⟩ := h
      simp only [Except.map, halike.errors]

/-- The step does the same in states that are alike. -/
def Blind (x : Step α) : Prop :=
  ∀ p q : State, p.Alike q → SameOutcome (x.run p) (x.run q)

namespace Blind

theorem pure (a : α) : Blind (pure a : Step α) :=
  fun _ q h => ⟨q, rfl, h⟩

theorem bind {x : Step α} {f : α → Step β} (hx : Blind x) (hf : ∀ a, Blind (f a)) :
    Blind (x >>= f) := by
  intro p q h
  have hfirst := hx p q h
  rw [run_bind, run_bind]
  cases hp : x.run p with
  | error fault =>
      rw [hp] at hfirst
      have hq : x.run q = .error fault := hfirst
      rw [hq]
      rfl
  | ok result =>
      obtain ⟨a, p'⟩ := result
      rw [hp] at hfirst
      obtain ⟨q', hq, h'⟩ := hfirst
      rw [hq]
      exact hf a p' q' h'

/-- Looking at the current token is blind if what follows would be the same for a token of the same
word at the start of the text. -/
theorem current {f : Token → Step β} (hword : ∀ t, f t = f ⟨t.kind, t.text, .start⟩)
    (hf : ∀ t, Blind (f t)) : Blind (Step.current >>= f) := by
  intro p q h
  have hkind : p.current.kind = q.current.kind := congrArg Word.kind h.current
  have htext : p.current.text = q.current.text := congrArg Word.text h.current
  show SameOutcome ((f p.current).run p) ((f q.current).run q)
  rw [hword p.current, hword q.current, hkind, htext]
  exact hf _ p q h

/-- A loop of blind rounds is blind, by induction along the first run. -/
theorem iterate {round : σ → Step (Round σ α)} {shrinks : ∀ s, Shrinks (round s)}
    (h : ∀ s, Blind (round s)) (s : σ) : Blind (iterate round shrinks s) := by
  intro p
  show ∀ q, p.Alike q →
    SameOutcome (iterateRun round shrinks s p) ((Step.iterate round shrinks s).run q)
  fun_induction iterateRun round shrinks s p with
  | case1 s p fault hr =>
      intro q hq
      have hround := h s p q hq
      rw [hr] at hround
      have hr' : (round s).run q = .error fault := hround
      rw [run_iterate, hr']
      rfl
  | case2 s p a p' hr =>
      intro q hq
      have hround := h s p q hq
      rw [hr] at hround
      obtain ⟨q', hr', hq'⟩ := hround
      rw [run_iterate, hr']
      exact ⟨q', rfl, hq'⟩
  | case3 s p s' p' hr ih =>
      intro q hq
      have hround := h s p q hq
      rw [hr] at hround
      obtain ⟨q', hr', hq'⟩ := hround
      rw [run_iterate, hr']
      exact ih q' hq'

end Blind

theorem blind_advance : Blind advance :=
  fun _ q h => ⟨q.advance, rfl, h.advance⟩

theorem blind_report (e : SyntaxError) : Blind (report e) :=
  fun _ q h => ⟨q.report e, rfl, h.report e⟩

theorem blind_halt (fault : Fault) : Blind (halt fault : Step α) :=
  fun _ _ _ => rfl

theorem blind_peekKind : Blind peekKind := by
  intro p q h
  refine ⟨q, ?_, h⟩
  show Except.ok (q.peek.kind, q) = .ok (p.peek.kind, q)
  rw [h.kind_peek]

/-- What is built from primitive steps is blind. -/
theorem Built.blind {x : Step α} (h : Built x) : Blind x := by
  induction h with
  | pure a => exact .pure a
  | bind _ _ ihx ihf => exact ihx.bind ihf
  | current hword _ ihf => exact .current hword ihf
  | peekKind => exact blind_peekKind
  | advance => exact blind_advance
  | report e => exact blind_report e
  | halt fault => exact blind_halt fault
  | iterate _ s ih => exact .iterate ih s

/-- Reading a program is blind: a fault comes at the same place, too. -/
theorem blind_program : Blind program :=
  built_program.blind

theorem parse_eq (source : String) :
    parse source =
      (program.run (.reading (.ofString source) [])).map fun r => ⟨r.1, r.2.errors⟩ := by
  rw [parse, State.ofString_eq_reading]
  cases program.run (.reading (.ofString source) []) with
  | error fault => rfl
  | ok result => rfl

theorem parse_congr {a b : String}
    (h : (tokenize a).map Token.word = (tokenize b).map Token.word) : parse a = parse b := by
  have hrun := blind_program _ _ (State.alike_reading (Scanner.words_ofString h) [])
  rw [parse_eq, parse_eq]
  exact hrun.map_eq Parsed.mk

end Parser

/-- Two texts whose tokens agree in kind and text, one by one, are read as the same program with the
same errors, or reading both stops with the same fault.  In the same scope of the same heap they
run to the same result, and leave the same heap. -/
theorem run_eq_of_same_words {a b : String}
    (h : (tokenize a).map Token.word = (tokenize b).map Token.word) :
    parse a = parse b ∧
      ∀ (settings : Settings) (scope : ScopeId) (heap : Heap),
        run settings scope a heap = run settings scope b heap := by
  have hparse := Parser.parse_congr h
  refine ⟨hparse, ?_⟩
  intro settings scope heap
  rw [run, run, runWithin, runWithin, hparse]

/-- A program written without white space where none is needed, and spread over four lines. -/
theorem run_eq_of_same_words_spread :
    let a := "let f=fn(x)\x7bx+1\x7d;f(2)"
    let b := "let f = fn ( x )\n\x7b\n\tx + 1\r\n\x7d ; f ( 2 ) "
    tokenize a ≠ tokenize b ∧ (tokenize a).map Token.word = (tokenize b).map Token.word ∧
      parse a = parse b ∧
      run .unset 0 a (.addRoot .empty .default) = run .unset 0 b (.addRoot .empty .default) := by
  intro a b
  have hdiffer : tokenize a ≠ tokenize b := by decide +kernel
  have hsame : (tokenize a).map Token.word = (tokenize b).map Token.word := by decide +kernel
  obtain ⟨hparse, hrun⟩ := run_eq_of_same_words hsame
  exact ⟨hdiffer, hsame, hparse, hrun .unset 0 (.addRoot .empty .default)⟩

end Scriptlet
