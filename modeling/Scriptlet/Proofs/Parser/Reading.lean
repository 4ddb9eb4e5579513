import Scriptlet.Parser.State
import Scriptlet.Proofs.Scanner.Words

/-!
# Reading words

What a step of a parser does, said in terms of the words ahead.

**States.**  A parser that has not been tampered with holds the next two tokens of some scanner and
the scanner after them.  `State.reading s errors` is that state; every parser starts in one and
every step leaves one.

**Success.**  `Reads x ws a ws'`: on the words `ws` the step `x` yields `a`, leaves the words `ws'`
and records nothing.  `Takes x ws a rest` is the form for productions, which stop on the last word of
their phrase: it forgets which word that is.

**Conclusions.**  `Yields x R`: whenever `x` yields, it has only added to the errors, and if it has
added none then `R` relates what it yields to the words before and after.

**Results.**  Both judgements have a rule for every primitive step, for sequencing and for loops
(`Reads.bind`, `reads_iterate_again`, `Yields.bind`, `Yields.iterate`).
-/

namespace Scriptlet

namespace Parser

namespace State

/-- The state in which the next token of a scanner is the current one. -/
def reading (s : Scanner) (errors : List SyntaxError) : State :=
  ⟨s.next.2.next.2, s.next.1, s.next.2.next.1, errors⟩

theorem ofString_eq_reading (source : String) :
    ofString source = reading (.ofString source) [] := rfl

@[simp] theorem advance_reading (s : Scanner) (errors : List SyntaxError) :
    (reading s errors).advance = reading s.next.2 errors := rfl

@[simp] theorem current_reading (s : Scanner) (errors : List SyntaxError) :
    (reading s errors).current = s.next.1 := rfl

theorem kind_peek_reading (s : Scanner) (errors : List SyntaxError) :
    (reading s errors).peek.kind = kindAhead s.words.tail := by
  rw [← s.words_next, ← Scanner.kind_next]
  rfl

end State

open Step

variable {α β σ : Type}

section Success

/-- On the words `ws` the step yields `a`, leaves the words `ws'` and records no error. -/
def Reads (x : Step α) (ws : List Word) (a : α) (ws' : List Word) : Prop :=
  ∀ (s : Scanner) (errors : List SyntaxError), s.words = ws →
    ∃ s' : Scanner, s'.words = ws' ∧ x.run (.reading s errors) = .ok (a, .reading s' errors)

/-- The step reads a phrase and stops on its last word, with the words `rest` after it. -/
def Takes (x : Step α) (ws : List Word) (a : α) (rest : List Word) : Prop :=
  ∃ last : Word, Reads x ws a (last :: rest)

variable {ws ws' ws'' rest : List Word} {w : Word} {a : α} {b : β}

theorem Reads.pure (a : α) (ws : List Word) : Reads (pure a) ws a ws :=
  fun s _ hs => ⟨s, hs, rfl⟩

theorem Reads.bind {x : Step α} {f : α → Step β} (hx : Reads x ws a ws')
    (hf : Reads (f a) ws' b ws'') : Reads (x >>= f) ws b ws'' := by
  intro s errors hs
  obtain ⟨t, ht, hrun⟩ := hx s errors hs
  obtain ⟨u, hu, hrun'⟩ := hf t errors ht
  refine ⟨u, hu, ?_⟩
  rw [run_bind, hrun]
  exact hrun'

theorem Takes.bind {x : Step α} {f : α → Step β} (hx : Takes x ws a rest)
    (hf : ∀ last, Reads (f a) (last :: rest) b ws') : Reads (x >>= f) ws b ws' := by
  obtain ⟨last, hl⟩ := hx
  exact hl.bind (hf last)

theorem Takes.bind_takes {x : Step α} {f : α → Step β} (hx : Takes x ws a rest)
    (hf : ∀ last, Takes (f a) (last :: rest) b ws') : Takes (x >>= f) ws b ws' := by
  obtain ⟨last, hl⟩ := hx
  obtain ⟨final, hfinal⟩ := hf last
  exact ⟨final, hl.bind hfinal⟩

theorem Reads.takes {x : Step α} (hx : Reads x ws a (w :: rest)) : Takes x ws a rest :=
  ⟨w, hx⟩

theorem reads_advance (ws : List Word) : Reads advance ws () ws.tail := by
  intro s errors hs
  refine ⟨s.next.2, ?_, rfl⟩
  rw [s.words_next, hs]

theorem reads_peekKind (ws : List Word) : Reads peekKind ws (kindAhead ws.tail) ws := by
  intro s errors hs
  refine ⟨s, hs, ?_⟩
  rw [peekKind, run_inspect, State.kind_peek_reading, hs]

/-- A step that looks at the current token sees its word. -/
theorem reads_current_bind {f : Token → Step β}
    (hf : ∀ t : Token, t.word = w → Reads (f t) (w :: ws) b ws') :
    Reads (current >>= f) (w :: ws) b ws' := by
  intro s errors hs
  obtain ⟨s', hs', hrun⟩ := hf s.next.1 (Scanner.word_next hs) s errors hs
  exact ⟨s', hs', hrun⟩

theorem reads_expectPeek (wanted : TokenKind) (w : Word) (text : String) (rest : List Word) :
    Reads (expectPeek wanted) (w :: ⟨wanted, text⟩ :: rest) true (⟨wanted, text⟩ :: rest) := by
  intro s errors hs
  refine ⟨s.next.2, ?_, ?_⟩
  · rw [s.words_next, hs, List.tail_cons]
  · rw [run_expectPeek, State.kind_peek_reading, hs]
    simp

section Branches

variable {x y : Step α} {kind : TokenKind} {text : String}

theorem Reads.ifExpect (hx : Reads x (⟨kind, text⟩ :: rest) a ws') :
    Reads (expectPeek kind >>= fun found => if found = true then x else y)
      (w :: ⟨kind, text⟩ :: rest) a ws' := by
  apply (reads_expectPeek kind w text rest).bind
  rw [if_pos rfl]
  exact hx

theorem Reads.ifPeek (h : kindAhead ws.tail = kind) (hx : Reads x ws a ws') :
    Reads (peekKind >>= fun k => if k = kind then x else y) ws a ws' := by
  apply (reads_peekKind ws).bind
  rw [if_pos h]
  exact hx

theorem Reads.ifPeek_not (h : kindAhead ws.tail ≠ kind) (hy : Reads y ws a ws') :
    Reads (peekKind >>= fun k => if k = kind then x else y) ws a ws' := by
  apply (reads_peekKind ws).bind
  rw [if_neg h]
  exact hy

end Branches

section Loops

variable {round : σ → Step (Round σ α)} {shrinks : ∀ s, Shrinks (round s)} {state state' : σ}

theorem reads_iterate_done (h : Reads (round state) ws (.done a) ws') :
    Reads (iterate round shrinks state) ws a ws' := by
  intro s errors hs
  obtain ⟨t, ht, hrun⟩ := h s errors hs
  refine ⟨t, ht, ?_⟩
  rw [run_iterate, hrun]

theorem reads_iterate_again (h : Reads (round state) ws (.again state') ws')
    (hnext : Reads (iterate round shrinks state') ws' a ws'') :
    Reads (iterate round shrinks state) ws a ws'' := by
  intro s errors hs
  obtain ⟨t, ht, hrun⟩ := h s errors hs
  obtain ⟨u, hu, hrun'⟩ := hnext t errors ht
  refine ⟨u, hu, ?_⟩
  rw [run_iterate, hrun]
  exact hrun'

end Loops

end Success

section Conclusions

/-- Whenever the step yields, it has only added errors, and without new errors `R` relates what it
yields to the words before and after. -/
def Yields (x : Step α) (R : α → List Word → List Word → Prop) : Prop :=
  ∀ (s : Scanner) (errors : List SyntaxError) (a : α) (q : State),
    x.run (.reading s errors) = .ok (a, q) →
    ∃ (s' : Scanner) (more : List SyntaxError),
      q = .reading s' (errors ++ more) ∧ (more = [] → R a s.words s'.words)

variable {R : β → List Word → List Word → Prop} {A : α → List Word → List Word → Prop}

theorem Yields.mono {x : Step β} {R' : β → List Word → List Word → Prop} (hx : Yields x R')
    (h : ∀ b ws ws', R' b ws ws' → R b ws ws') : Yields x R := by
  intro s errors b q hrun
  obtain ⟨s', more, hq, hR⟩ := hx s errors b q hrun
  exact ⟨s', more, hq, fun hm => h _ _ _ (hR hm)⟩

theorem Yields.pure {b : β} (h : ∀ ws, R b ws ws) : Yields (pure b) R := by
  intro s errors b' q hrun
  rw [run_pure] at hrun
  cases hrun
  exact ⟨s, [], by rw [List.append_nil], fun _ => h _⟩

/-- What is known of the first step is there to be used for the second. -/
theorem Yields.bind {x : Step α} {f : α → Step β} (hx : Yields x A)
    (hf : ∀ a, Yields (f a) fun b ws' ws'' => ∀ ws, A a ws ws' → R b ws ws'') :
    Yields (x >>= f) R := by
  intro s errors b q hrun
  rw [run_bind] at hrun
  split at hrun
  · cases hrun
  · next a q' hrun' =>
      obtain ⟨t, more, rfl, hA⟩ := hx s errors a q' hrun'
      obtain ⟨u, more', rfl, hR⟩ := hf a t (errors ++ more) b q hrun
      refine ⟨u, more ++ more', by rw [List.append_assoc], ?_⟩
      intro hm
      obtain ⟨hm1, hm2⟩ := List.append_eq_nil_iff.mp hm
      exact hR hm2 s.words (hA hm1)

theorem yields_advance : Yields advance fun _ ws ws' => ws' = ws.tail := by
  intro s errors a q hrun
  rw [run_advance] at hrun
  cases hrun
  exact ⟨s.next.2, [], by simp, fun _ => s.words_next⟩

theorem yields_report (e : SyntaxError) : Yields (report e) fun _ _ _ => False := by
  intro s errors a q hrun
  rw [run_report] at hrun
  cases hrun
  exact ⟨s, [e], rfl, fun h => by cases h⟩

theorem yields_halt (fault : Fault) : Yields (halt fault) R := by
  intro s errors b q hrun
  rw [run_halt] at hrun
  cases hrun

/-- The token is the one that the words start with, the end token if there are none. -/
def Shows (t : Token) : List Word → Prop
  | [] => t.kind = .eof
  | w :: _ => t.kind ≠ .eof ∧ t.word = w

theorem shows_next (s : Scanner) : Shows s.next.1 s.words := by
  cases h : s.words with
  | nil => exact (s.words_eq_nil_iff).mp h
  | cons w rest =>
      constructor
      · rw [s.kind_next, h]
        exact Scanner.kind_ne_eof_of_words h
      · exact Scanner.word_next h

theorem Yields.current {f : Token → Step β}
    (hf : ∀ t, Yields (f t) fun b ws ws' => Shows t ws → R b ws ws') :
    Yields (current >>= f) R := by
  intro s errors b q hrun
  obtain ⟨s', more, hq, hR⟩ := hf s.next.1 s errors b q hrun
  exact ⟨s', more, hq, fun hm => hR hm (shows_next s)⟩

theorem yields_peekKind : Yields peekKind fun kind ws ws' =>
    ws' = ws ∧ kind = kindAhead ws.tail := by
  intro s errors kind q hrun
  rw [peekKind, run_inspect, State.kind_peek_reading] at hrun
  cases hrun
  exact ⟨s, [], by rw [List.append_nil], fun _ => ⟨rfl, rfl⟩⟩

theorem yields_expectPeek {wanted : TokenKind} (h : wanted ≠ .eof) :
    Yields (expectPeek wanted) fun found ws ws' =>
      found = true ∧ ws' = ws.tail ∧ ∃ text rest, ws' = ⟨wanted, text⟩ :: rest := by
  intro s errors found q hrun
  rw [run_expectPeek, State.kind_peek_reading] at hrun
  split at hrun
  · next hk =>
      cases hrun
      refine ⟨s.next.2, [], by simp, fun _ => ⟨rfl, s.words_next, ?_⟩⟩
      rw [s.words_next]
      cases hw : s.words.tail with
      | nil =>
          rw [hw, kindAhead_nil] at hk
          exact absurd hk.symm h
      | cons w rest =>
          rw [hw, kindAhead_cons] at hk
          exact ⟨w.text, rest, by rw [← hk]⟩
  · cases hrun
    exact ⟨s, [_], rfl, fun hm => by cases hm⟩

section Branches

variable {x y : Step β} {kind : TokenKind}

/-- Without new errors the wanted token was there, and the other branch was not taken. -/
theorem Yields.ifExpect (hk : kind ≠ .eof)
    (hx : Yields x fun b ws' ws'' =>
      ∀ w text rest, ws' = ⟨kind, text⟩ :: rest → R b (w :: ws') ws'')
    (hy : Yields y fun _ _ _ => True) :
    Yields (expectPeek kind >>= fun found => if found = true then x else y) R := by
  apply (yields_expectPeek hk).bind
  intro found
  cases found with
  | true =>
      rw [if_pos rfl]
      apply hx.mono
      rintro b ws' ws'' h ws ⟨_, htail, text, rest, hword⟩
      cases ws with
      | nil =>
          rw [List.tail_nil, hword] at htail
          cases htail
      | cons w rest' =>
          rw [List.tail_cons] at htail
          subst htail
          exact h w text rest hword
  | false =>
      rw [if_neg (by decide)]
      apply hy.mono
      rintro b ws' ws'' _ ws ⟨hfalse, _⟩
      cases hfalse

theorem Yields.ifPeek
    (hx : Yields x fun b ws ws' => kindAhead ws.tail = kind → R b ws ws')
    (hy : Yields y fun b ws ws' => kindAhead ws.tail ≠ kind → R b ws ws') :
    Yields (peekKind >>= fun k => if k = kind then x else y) R := by
  apply yields_peekKind.bind
  intro k
  by_cases hk : k = kind
  · rw [if_pos hk]
    apply hx.mono
    rintro b ws ws' h _ ⟨rfl, hpeek⟩
    exact h (by rw [← hpeek, hk])
  · rw [if_neg hk]
    apply hy.mono
    rintro b ws ws' h _ ⟨rfl, hpeek⟩
    exact h (by rw [← hpeek]; exact hk)

end Branches

section Loops

variable {round : σ → Step (Round σ β)} {shrinks : ∀ s, Shrinks (round s)}
  {I : σ → β → List Word → List Word → Prop}

/-- What a loop comes to, by induction along its own recursion: its rounds shrink the state. -/
theorem yields_iterateRun
    (hround : ∀ state, Yields (round state) fun r ws ws' =>
      match r with
      | .done b => I state b ws ws'
      | .again state' => ∀ b ws'', I state' b ws' ws'' → I state b ws ws'')
    (state : σ) (p : State) :
    ∀ {s : Scanner} {errors : List SyntaxError} {b : β} {q : State},
      p = .reading s errors → iterateRun round shrinks state p = .ok (b, q) →
      ∃ (s' : Scanner) (more : List SyntaxError),
        q = .reading s' (errors ++ more) ∧ (more = [] → I state b s.words s'.words) := by
  fun_induction iterateRun round shrinks state p with
  | case1 =>
      intro s errors b q _ hrun
      cases hrun
  | case2 state p b r hr =>
      rintro s errors _ _ rfl hrun
      cases hrun
      exact hround state s errors _ _ hr
  | case3 state p state' r hr ih =>
      rintro s errors b q rfl hrun
      obtain ⟨t, more, rfl, hagain⟩ := hround state s errors _ _ hr
      obtain ⟨u, more', rfl, hI⟩ := ih rfl hrun
      refine ⟨u, more ++ more', by rw [List.append_assoc], ?_⟩
      intro hm
      obtain ⟨hm1, hm2⟩ := List.append_eq_nil_iff.mp hm
      exact hagain hm1 b u.words (hI hm2)

/-- A loop yields what its rounds keep: the relation holds for a round that is done, and carries
over from the later rounds to one that goes on. -/
theorem Yields.iterate
    (hround : ∀ state, Yields (round state) fun r ws ws' =>
      match r with
      | .done b => I state b ws ws'
      | .again state' => ∀ b ws'', I state' b ws' ws'' → I state b ws ws'')
    (state : σ) : Yields (iterate round shrinks state) (I state) :=
  fun _ _ _ _ hrun => yields_iterateRun hround state _ rfl hrun

end Loops

end Conclusions

end Parser

end Scriptlet
