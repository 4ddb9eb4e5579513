import Scriptlet.Parser.Grammar
import Scriptlet.Proofs.Parser.Reading
import Scriptlet.Proofs.Scanner.Enclosure

/-!
# Places of a parser in a text that nests no deeper than there is room

**Places.**  `At v c p`: the parser `p` has read the text `v` up to its current token, with the openings of
the enclosure `c` open there.  `Past v c p`: it has read that token too.  Both say that the rest of the text
nests no deeper than `v` allows, and that every numeral that has been read has been handled.

**Phrases.**  A phrase is read inside the openings that it leaves open: `Within` says that they are open
still, `Completed` that the phrase has come to its end besides, so that a minus sign there stands between two
operands and a parenthesis is that of a call.

**The judgement.**  `Finishes v p x wanted`: from the state `p` the step `x` comes to an end as is wanted.
Two things may stop it, a numeral that is too long and a key that the host has not the room to look up
(`Survey.Stops`); that there is no room to read an expression is not among them.

**Room.**  An expression inside another is read either inside one opening more or, in the same place, at a
tighter level.  There are eight levels, so that nine levels of expressions for every opening are enough.

**Results.**
* `Finishes.bind`, `Finishes.iterate`: the rules of the judgement.
* `Admits.room_cons`, `Admits.room_tighter`, `Admits.room_ended`: the three ways of going down to an
  expression, and the room they leave.
* `not_admits_zero`: there is no going down further than the text nests.
-/

namespace Scriptlet

namespace Parser

open Step

variable {α β σ : Type}

/-- A text: its words, and how deep they nest at most. -/
structure Survey where
  words : List Word
  depth : Nat

variable {v : Survey} {c : Enclosure} {inside base : List Opening} {kind : TokenKind} {p q : State}

section Places

/-- The numeral is not too long, and has been reported if it is too large. -/
def Handled (w : Word) (errors : List SyntaxError) : Prop :=
  w.text.length ≤ longestNumeral ∧
    (maxInteger < (Nat.ofDigitChars 10 w.text.toList 0 : Int) → .integerTooLarge w.text ∈ errors)

theorem Handled.append {w : Word} {errors : List SyntaxError} (h : Handled w errors)
    (more : List SyntaxError) : Handled w (errors ++ more) :=
  ⟨h.1, fun hlarge => List.mem_append_left more (h.2 hlarge)⟩

/-- What is known at a place of the text, with the words ahead of it and the errors so far. -/
structure Ahead (v : Survey) (c : Enclosure) (ws : List Word) (errors : List SyntaxError) : Prop where
  deep : c.deepest (ws.map Word.kind) ≤ v.depth
  left : ws <:+ v.words
  handled : ∀ w ∈ v.words, w.kind = .int → w ∈ ws ∨ Handled w errors

theorem Ahead.append {ws : List Word} {errors : List SyntaxError} (h : Ahead v c ws errors)
    (more : List SyntaxError) : Ahead v c ws (errors ++ more) :=
  { h with handled := fun w hw hint => (h.handled w hw hint).imp_right fun hw => hw.append more }

/-- The current token comes next in the text. -/
def At (v : Survey) (c : Enclosure) (p : State) : Prop :=
  ∃ s : Scanner, p = .reading s p.errors ∧ Ahead v c s.words p.errors

/-- The current token has been read. -/
def Past (v : Survey) (c : Enclosure) (p : State) : Prop :=
  ∃ s : Scanner, p = .reading s p.errors ∧ Ahead v c s.words.tail p.errors

theorem At.length_le (h : At v c p) : c.openings.length ≤ v.depth := by
  obtain ⟨s, -, hahead⟩ := h
  exact Nat.le_trans (c.length_le_deepest _) hahead.deep

/-- A current token that is no numeral, or one that has been handled, is read. -/
theorem At.past (h : At v c p) (hint : p.current.kind = .int → Handled p.current.word p.errors) :
    Past v (c.next p.current.kind) p := by
  obtain ⟨s, hp, hahead⟩ := h
  refine ⟨s, hp, ?_⟩
  have hcurrent : p.current = s.next.1 := congrArg State.current hp
  rw [hcurrent] at hint ⊢
  by_cases hk : s.next.1.kind = .eof
  · rw [hk]
    rw [Scanner.words_of_eof hk] at hahead ⊢
    exact hahead
  · rw [Scanner.words_of_ne_eof hk] at hahead ⊢
    refine ⟨Nat.le_trans (c.deepest_next_le _ _) hahead.deep, (List.suffix_cons _ _).trans hahead.left, ?_⟩
    intro w hw hnumeral
    rcases hahead.handled w hw hnumeral with hmem | hhandled
    · rcases List.mem_cons.mp hmem with rfl | hrest
      · exact Or.inr (hint hnumeral)
      · exact Or.inl hrest
    · exact Or.inr hhandled

/-- A current token that is not the end token is a word of the text. -/
theorem At.current_mem (h : At v c p) (hk : p.current.kind ≠ .eof) : p.current.word ∈ v.words := by
  obtain ⟨s, hp, hahead⟩ := h
  have hcurrent : p.current = s.next.1 := congrArg State.current hp
  rw [hcurrent] at hk ⊢
  refine hahead.left.subset ?_
  rw [Scanner.words_of_ne_eof hk]
  exact List.mem_cons_self

theorem At.past_of_ne (h : At v c p) (hk : p.current.kind = kind) (hint : kind ≠ .int) :
    Past v (c.next kind) p := by
  rw [← hk] at hint ⊢
  exact h.past fun hnumeral => absurd hnumeral hint

theorem Past.advance (h : Past v c p) : At v c p.advance := by
  obtain ⟨s, hp, hahead⟩ := h
  refine ⟨s.next.2, ?_, ?_⟩
  · rw [hp]
    rfl
  · rw [s.words_next]
    exact hahead

/-- The next token is read. -/
theorem Past.step (h : Past v c p) (hk : p.peek.kind = kind) (hint : kind ≠ .int) :
    Past v (c.next kind) p.advance :=
  h.advance.past_of_ne hk hint

theorem At.report (h : At v c p) (e : SyntaxError) : At v c (p.report e) := by
  obtain ⟨s, hp, hahead⟩ := h
  exact ⟨s, congrArg (State.report · e) hp, hahead.append [e]⟩

theorem Past.report (h : Past v c p) (e : SyntaxError) : Past v c (p.report e) := by
  obtain ⟨s, hp, hahead⟩ := h
  exact ⟨s, congrArg (State.report · e) hp, hahead.append [e]⟩

/-- After the end of the text comes its end again. -/
theorem At.peek_of_eof (h : At v c p) (hk : p.current.kind = .eof) : p.peek.kind = .eof := by
  obtain ⟨s, hp, -⟩ := h
  rw [hp] at hk ⊢
  exact Scanner.kind_next_next_of_eof hk

end Places

section Phrases

/-- A phrase has been read, inside some openings that are open still. -/
def Within (v : Survey) (inside : List Opening) (p : State) : Prop :=
  ∃ c, Past v c p ∧ inside <:+ c.openings

/-- A phrase has been read to its end. -/
def Completed (v : Survey) (inside : List Opening) (p : State) : Prop :=
  ∃ c, Past v c p ∧ inside <:+ c.openings ∧ (c.place = .ended ∨ p.peek.kind = .eof)

/-- A phrase has been read, to its end if something came of it. -/
def Answers (v : Survey) (inside : List Opening) (found : Option α) (p : State) : Prop :=
  Within v inside p ∧ (found.isSome = true → Completed v inside p)

theorem Completed.within (h : Completed v inside p) : Within v inside p := by
  obtain ⟨c, hp, hin, -⟩ := h
  exact ⟨c, hp, hin⟩

theorem Completed.answers (h : Completed v inside p) (found : Option α) : Answers v inside found p :=
  ⟨h.within, fun _ => h⟩

theorem Within.answers_none (h : Within v inside p) : Answers v inside (none : Option α) p :=
  ⟨h, fun hsome => absurd hsome Bool.false_ne_true⟩

theorem Within.mono (h : Within v base p) (hle : inside <:+ base) : Within v inside p := by
  obtain ⟨c, hp, hin⟩ := h
  exact ⟨c, hp, hle.trans hin⟩

theorem Completed.mono (h : Completed v base p) (hle : inside <:+ base) : Completed v inside p := by
  obtain ⟨c, hp, hin, hplace⟩ := h
  exact ⟨c, hp, hle.trans hin, hplace⟩

theorem Answers.mono {found : Option α} (h : Answers v base found p) (hle : inside <:+ base) :
    Answers v inside found p :=
  ⟨h.1.mono hle, fun hsome => (h.2 hsome).mono hle⟩

theorem Answers.map {found : Option α} (h : Answers v inside found p) (g : α → β) :
    Answers v inside (found.map g) p :=
  ⟨h.1, fun hsome => h.2 (by rwa [Option.isSome_map] at hsome)⟩

theorem Within.report (h : Within v inside p) (e : SyntaxError) : Within v inside (p.report e) := by
  obtain ⟨c, hp, hin⟩ := h
  exact ⟨c, hp.report e, hin⟩

/-- The bracket around a phrase is closed. -/
theorem Within.close {close : TokenKind} (h : Within v (.bracket close :: inside) p)
    (hk : p.peek.kind = kind) (hcloses : kind.closes = true) : Completed v inside p.advance := by
  obtain ⟨c, hp, hin⟩ := h
  have hint : kind ≠ .int := by
    rintro rfl
    cases hcloses
  exact ⟨c.next kind, hp.step hk hint, c.suffix_next_of_bracket hin kind,
    Or.inl (c.place_next_of_closes hcloses)⟩

/-- A token that closes nothing is read after a phrase that is not inside a sign. -/
theorem Within.step (h : Within v inside p) (hk : p.peek.kind = kind) (hint : kind ≠ .int)
    (hsign : inside.head? ≠ some .sign) (hopen : kind.closes = false) :
    Within v inside p.advance := by
  obtain ⟨c, hp, hin⟩ := h
  exact ⟨c.next kind, hp.step hk hint, c.suffix_next hin (Or.inr hsign) (Or.inr (Or.inl hopen))⟩

/-- A brace is opened after a phrase. -/
theorem Within.brace (h : Within v inside p) (hk : p.peek.kind = .lbrace) :
    ∃ X, inside <:+ X ∧ Within v (.bracket .rbrace :: X) p.advance := by
  obtain ⟨c, hp, hin⟩ := h
  exact ⟨c.openings, hin, _, hp.step hk (by decide), List.suffix_refl _⟩

end Phrases

section Judgement

variable [Capacity]

/-- The expression is read somewhere in the text, and a colon comes after it. -/
def KeyIn (words : List Word) (e : Expr) : Prop :=
  ∃ (n : Nat) (s : Scanner) (errors : List SyntaxError) (q : State), s.words <:+ words ∧
    (expressionWithin n .lowest).run (.reading s errors) = .ok (some e, q) ∧ q.peek.kind = .colon

/-- What may stop a parser in the text. -/
def Survey.Stops (v : Survey) : Fault → Prop
  | .numeralTooLong => ∃ w ∈ v.words, w.kind = .int ∧ longestNumeral < w.text.length
  | .nestedTooDeeply => ∃ e, KeyIn v.words e ∧ Capacity.hashable e = false

theorem KeyIn.of_at (n : Nat) {e : Expr} (hat : At v c p)
    (hrun : (expressionWithin n .lowest).run p = .ok (some e, q)) (hcolon : q.peek.kind = .colon) :
    KeyIn v.words e := by
  obtain ⟨s, hp, hahead⟩ := hat
  exact ⟨n, s, p.errors, q, hahead.left, hp ▸ hrun, hcolon⟩

/-- From the state `p` the step comes to an end that is as wanted, or something in the text stops it. -/
def Finishes (v : Survey) (p : State) (x : Step α) (wanted : α → State → Prop) : Prop :=
  match x.run p with
  | .error fault => v.Stops fault
  | .ok (a, q) => wanted a q

variable {wanted : β → State → Prop}

theorem finishes_pure {b : β} (h : wanted b p) : Finishes v p (pure b) wanted :=
  h

theorem Finishes.bind {x : Step α} {f : α → Step β} {between : α → State → Prop}
    (hx : Finishes v p x between) (hf : ∀ a q, between a q → Finishes v q (f a) wanted) :
    Finishes v p (x >>= f) wanted := by
  rw [Finishes] at hx ⊢
  rw [run_bind]
  cases hrun : x.run p with
  | error fault =>
      rw [hrun] at hx
      exact hx
  | ok result =>
      rw [hrun] at hx
      exact hf result.1 result.2 hx

theorem Finishes.mono {x : Step β} {better : β → State → Prop} (hx : Finishes v p x better)
    (h : ∀ b q, better b q → wanted b q) : Finishes v p x wanted := by
  rw [Finishes] at hx ⊢
  split
  · next hrun =>
      rw [hrun] at hx
      exact hx
  · next hrun =>
      rw [hrun] at hx
      exact h _ _ hx

/-- What a step comes to is what it was run to. -/
theorem Finishes.ran {x : Step β} (hx : Finishes v p x wanted) :
    Finishes v p x fun b q => wanted b q ∧ x.run p = .ok (b, q) := by
  rw [Finishes] at hx ⊢
  cases hrun : x.run p with
  | error fault =>
      rw [hrun] at hx
      exact hx
  | ok result =>
      rw [hrun] at hx
      exact ⟨hx, rfl⟩

theorem Finishes.ite {cond : Prop} [Decidable cond] {x y : Step β}
    (hx : cond → Finishes v p x wanted) (hy : ¬cond → Finishes v p y wanted) :
    Finishes v p (if cond then x else y) wanted := by
  by_cases h : cond
  · rw [if_pos h]
    exact hx h
  · rw [if_neg h]
    exact hy h

theorem Finishes.current {f : Token → Step β} (h : Finishes v p (f p.current) wanted) :
    Finishes v p (current >>= f) wanted :=
  h

theorem Finishes.peekKind {f : TokenKind → Step β} (h : Finishes v p (f p.peek.kind) wanted) :
    Finishes v p (peekKind >>= f) wanted :=
  h

theorem Finishes.advance {x : Step β} (h : Finishes v p.advance x wanted) :
    Finishes v p (advance >>= fun _ => x) wanted :=
  h

theorem Finishes.ifExpect {x : Step β} {b : β}
    (hfound : p.peek.kind = kind → Finishes v p.advance x wanted)
    (hmissing : ∀ e, wanted b (p.report e)) :
    Finishes v p (expectPeek kind >>= fun found => if found = true then x else pure b) wanted := by
  rw [Finishes, run_bind, run_expectPeek]
  by_cases hk : p.peek.kind = kind
  · rw [if_pos hk]
    exact hfound hk
  · rw [if_neg hk]
    exact hmissing _

/-- A round that goes on keeps the invariant of its loop, and one that does not ends as is wanted. -/
def Round.Keeps (invariant : State → Prop) (wanted : β → State → Prop) : Round σ β → State → Prop
  | .again _, q => invariant q
  | .done b, q => wanted b q

theorem Finishes.iterate {round : σ → Step (Round σ β)} {shrinks : ∀ s, Shrinks (round s)}
    (invariant : State → Prop)
    (hround : ∀ s p, invariant p → Finishes v p (round s) (Round.Keeps invariant wanted))
    (s : σ) (hp : invariant p) : Finishes v p (Step.iterate round shrinks s) wanted := by
  show match iterateRun round shrinks s p with
    | .error fault => v.Stops fault
    | .ok (b, q) => wanted b q
  fun_induction iterateRun round shrinks s p with
  | case1 s p fault hr =>
      have hfault := hround s p hp
      rw [Finishes, hr] at hfault
      exact hfault
  | case2 s p b q hr =>
      have hdone := hround s p hp
      rw [Finishes, hr] at hdone
      exact hdone
  | case3 s p s' q hr ih =>
      have hagain := hround s p hp
      rw [Finishes, hr] at hagain
      exact ih hagain

end Judgement

section Room

/-- No sign and no bracket but a brace is right around a statement. -/
def Floor (base : List Opening) : Prop :=
  ∀ o ∈ base.head?, o = .bracket .rbrace

theorem floor_nil : Floor [] := by
  intro o ho
  cases ho

theorem floor_brace (X : List Opening) : Floor (.bracket .rbrace :: X) := by
  intro o ho
  exact (Option.some.inj ho).symm

theorem Floor.sign (h : Floor base) : base.head? ≠ some .sign :=
  fun hsign => by cases h _ hsign

theorem Floor.bracket (h : Floor base) (hkind : kind ≠ .rbrace) :
    base.head? ≠ some (.bracket kind) :=
  fun hhead => hkind (Opening.bracket.inj (h _ hhead))

/-- Whatever nests inside these openings can be read by readers that go so deep. -/
def Room (v : Survey) (depth : Nat) (base : List Opening) : Prop :=
  9 * v.depth + 10 ≤ depth + 9 * base.length

theorem Room.enough {depth : Nat} (h : Room v depth base) (level : Precedence) :
    9 * v.depth + 10 ≤ depth + 9 * base.length + level.rank :=
  Nat.le_trans h (Nat.le_add_right _ _)

/-- When an expression may be read at a place, inside some openings that are open there. -/
structure Admits (v : Survey) (depth : Nat) (c : Enclosure) (inside : List Opening)
    (level : Precedence) : Prop where
  around : inside <:+ c.openings
  sign : inside.head? = some .sign → c.place = .operand ∧ Precedence.unary.rank ≤ level.rank
  floor : c.place = .ended → Floor inside
  room : 9 * v.depth + 10 ≤
    depth + 9 * inside.length + if c.place = .ended then 0 else level.rank

section Operators

theorem next_of_operator (hway : kind.suffix? = some .operator) (hended : c.place = .ended) :
    c.next kind = ⟨c.settled, .operand⟩ ∧ kind ≠ .int ∧
      kind.precedence.rank < Precedence.unary.rank := by
  cases kind with
  | minus =>
      refine ⟨?_, by decide, by decide⟩
      rw [Enclosure.next, if_pos hended]
  | plus | asterisk | slash | lt | gt | eq | notEq => exact ⟨rfl, by decide, by decide⟩
  | _ => cases hway

theorem eq_lparen_of_suffix? (hway : kind.suffix? = some .call) : kind = .lparen := by
  cases kind with
  | lparen => rfl
  | _ => cases hway

theorem eq_lbracket_of_suffix? (hway : kind.suffix? = some .index) : kind = .lbracket := by
  cases kind with
  | lbracket => rfl
  | _ => cases hway

end Operators

/-- The reader reads every expression it is admitted to, and what it reads before a colon may be a key. -/
structure Copes [Capacity] (v : Survey) (depth : Nat) (expression : Reader) : Prop where
  reads : ∀ ⦃c inside level p⦄, Admits v depth c inside level → At v c p →
    inside <:+ (c.next p.current.kind).openings →
    Finishes v p (expression level) (Answers v inside)
  keys : ∀ ⦃c p e q⦄, At v c p → (expression .lowest).run p = .ok (some e, q) →
    q.peek.kind = .colon → KeyIn v.words e

theorem Admits.around_settled {depth : Nat} {level : Precedence} (h : Admits v depth c inside level) :
    inside <:+ c.settled := by
  refine Enclosure.suffix_settled h.around ?_
  by_cases hsign : inside.head? = some .sign
  · exact Or.inl (h.sign hsign).1
  · exact Or.inr hsign

theorem rank_le (level : Precedence) : level.rank ≤ 8 := by
  cases level <;> decide

variable {depth : Nat} {level : Precedence}

/-- A new opening makes up for going down to the expressions inside. -/
theorem Admits.room_cons (h : Admits v (depth + 1) c inside level) {X : List Opening}
    (hle : inside <:+ X) (o : Opening) : Room v depth (o :: X) := by
  have hroom := h.room
  have hrank := rank_le level
  have hlength := hle.length_le
  rw [Room, List.length_cons]
  split at hroom <;> omega

/-- A tighter level makes up for going down to the expression on the right. -/
theorem Admits.room_tighter (h : Admits v (depth + 1) c inside level) {tighter : Precedence}
    (hlt : level.rank < tighter.rank) :
    9 * v.depth + 10 ≤ depth + 9 * inside.length + tighter.rank := by
  have hroom := h.room
  split at hroom <;> omega

/-- Where an operand has ended, there is room to go down in the same place. -/
theorem Admits.room_ended (h : Admits v (depth + 1) c inside level) (hended : c.place = .ended) :
    9 * v.depth + 10 ≤ depth + 9 * inside.length + 1 := by
  have hroom := h.room
  rw [if_pos hended] at hroom
  omega

/-- There is no going down further than the text nests. -/
theorem not_admits_zero (hat : At v c p) : ¬Admits v 0 c inside level := by
  intro h
  have hroom := h.room
  have hrank := rank_le level
  have hlength := h.around.length_le
  have hdepth := hat.length_le
  split at hroom <;> omega

variable [Capacity] {expression : Reader}

/-- An operand is read inside whatever is open where it has to come. -/
theorem Copes.operand (h : Copes v depth expression) (hat : At v c p) (hplace : c.place = .operand)
    (hin : base <:+ c.openings)
    (hsign : base.head? = some .sign → Precedence.unary.rank ≤ level.rank)
    (hroom : 9 * v.depth + 10 ≤ depth + 9 * base.length + level.rank) :
    Finishes v p (expression level) (Answers v base) := by
  have hended : c.place ≠ .ended := by
    rw [hplace]
    decide
  refine h.reads ⟨hin, fun hhead => ⟨hplace, hsign hhead⟩, fun hplace => absurd hplace hended, ?_⟩ hat ?_
  · rw [if_neg hended]
    exact hroom
  · exact c.suffix_next hin (Or.inl hplace) (Or.inl hplace)

/-- An item is read inside what its first token does not close. -/
theorem Copes.item (h : Copes v depth expression) (hroom : Room v depth base) (hat : At v c p)
    (hin : base <:+ c.openings) (hsign : base.head? ≠ some .sign)
    (hfloor : c.place = .ended → Floor base)
    (hstarts : base <:+ (c.next p.current.kind).openings) :
    Finishes v p (expression level) (Answers v base) := by
  refine h.reads ⟨hin, fun hhead => absurd hhead hsign, hfloor, ?_⟩ hat hstarts
  exact Nat.le_trans hroom (Nat.le_add_right _ _)

end Room

end Parser

end Scriptlet
