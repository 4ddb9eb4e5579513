import Scriptlet.Proofs.Parser.Moving
import Scriptlet.Proofs.Parser.Nesting
import Scriptlet.Proofs.Parser.Soundness
import Scriptlet.Proofs.Scanner.Positions

/-!
# Reading without a limit on nesting

The limit on how deep expressions nest is not what makes reading come to an end.  An expression inside another
starts further on in the text, so that the weight of the state bounds how deep any text can nest; at the end
of the text, where moving on is no progress, no expression has another inside it.

**Comparison.**  `Same p x y`: from the state `p` both steps do the same, and do not stop because of nesting.
`Agrees b x y`: they do so from every state of weight less than `b`.

**Method.**  Every production keeps the agreement of the readers inside it, for no step adds weight.  An
expression does more: it moves on before it reads one inside it, so that its readers need to agree from
states of less weight only.

**Results.**
* `expressionWith_agrees`: readers that agree below a weight make readers that agree at that weight too.
* `unlimited`: the reader of expressions that nest as deep as they may; it is the one solution of its own
  recursion (`unlimited_eq`, `eq_unlimited`).
* `reading_terminates`: with it every text is read to its end, or up to a numeral that is too long.
-/

namespace Scriptlet

namespace Parser

open Step

variable {α β σ : Type} {b : Nat} {p : State}

/-- From the state `p` both steps do the same, and do not stop because of nesting. -/
def Same (p : State) (x y : Step α) : Prop :=
  x.run p = y.run p ∧ x.run p ≠ .error .nestedTooDeeply

/-- The steps do the same from every state of less weight than `b`. -/
def Agrees (b : Nat) (x y : Step α) : Prop :=
  ∀ p : State, p.weight < b → Same p x y

namespace Same

/-- A step that yields something does not stop. -/
theorem of_run {x : Step α} {result : α × State} (h : x.run p = .ok result) : Same p x x :=
  ⟨rfl, fun hstop => by cases h.symm.trans hstop⟩

theorem pure (a : α) (p : State) : Same p (pure a) (pure a) :=
  of_run rfl

theorem bind {x y : Step α} {f g : α → Step β} (hxy : Same p x y)
    (hfg : ∀ a q, q.weight ≤ p.weight → Same q (f a) (g a)) : Same p (x >>= f) (y >>= g) := by
  obtain ⟨hsame, hnot⟩ := hxy
  rw [Same, run_bind, run_bind, ← hsame]
  cases hrun : x.run p with
  | error fault => exact ⟨rfl, fun h => hnot (hrun.trans (congrArg _ (Except.error.inj h)))⟩
  | ok result => exact hfg result.1 result.2 (x.weight_le hrun)

theorem ite {c : Prop} [Decidable c] {x y x' y' : Step α} (hx : Same p x x')
    (hy : Same p y y') : Same p (if c then x else y) (if c then x' else y') := by
  by_cases hc : c
  · rw [if_pos hc, if_pos hc]
    exact hx
  · rw [if_neg hc, if_neg hc]
    exact hy

theorem current {f g : Token → Step β} (h : Same p (f p.current) (g p.current)) :
    Same p (current >>= f) (current >>= g) :=
  h

theorem peekKind {f g : TokenKind → Step β} (h : Same p (f p.peek.kind) (g p.peek.kind)) :
    Same p (peekKind >>= f) (peekKind >>= g) :=
  h

theorem advance {x y : Step β} (h : Same p.advance x y) :
    Same p (advance >>= fun _ => x) (advance >>= fun _ => y) :=
  h

theorem ifExpect {kind : TokenKind} {x y : Step β} {a : β} (h : Same p.advance x y) :
    Same p (expectPeek kind >>= fun found => if found = true then x else Pure.pure a)
      (expectPeek kind >>= fun found => if found = true then y else Pure.pure a) := by
  rw [Same, run_bind, run_bind, run_expectPeek]
  by_cases hk : p.peek.kind = kind
  · rw [if_pos hk]
    exact h
  · rw [if_neg hk]
    exact ⟨rfl, fun hstop => by cases hstop⟩

/-- Loops do the same if their rounds do from here and from every state of less weight, by induction along
the recursion of the first loop. -/
theorem iterate {round round' : σ → Step (Round σ α)}
    {shrinks : ∀ s, Shrinks (round s)} {shrinks' : ∀ s, Shrinks (round' s)}
    (h : ∀ s q, q = p ∨ q.weight < p.weight → Same q (round s) (round' s)) (s : σ) :
    Same p (Step.iterate round shrinks s) (Step.iterate round' shrinks' s) := by
  show iterateRun round shrinks s p = _ ∧ iterateRun round shrinks s p ≠ _
  fun_induction iterateRun round shrinks s p with
  | case1 s p fault hr =>
      obtain ⟨hsame, hnot⟩ := h s p (Or.inl rfl)
      refine ⟨?_, fun hfault => hnot (hr.trans (congrArg _ (Except.error.inj hfault)))⟩
      rw [run_iterate, ← hsame, hr]
  | case2 s p a q hr =>
      refine ⟨?_, fun hstop => by cases hstop⟩
      rw [run_iterate, ← (h s p (Or.inl rfl)).1, hr]
  | case3 s p s' q hr ih =>
      rw [run_iterate, ← (h s p (Or.inl rfl)).1, hr]
      refine ih fun t r hr' => h t r (Or.inr ?_)
      have hlt := shrinks s hr
      rcases hr' with rfl | hr'
      · exact hlt
      · exact Nat.lt_trans hr' hlt

end Same

namespace Agrees

theorem pure (a : α) : Agrees b (pure a) (pure a) :=
  fun p _ => .pure a p

theorem bind {x y : Step α} {f g : α → Step β} (hxy : Agrees b x y)
    (hfg : ∀ a, Agrees b (f a) (g a)) : Agrees b (x >>= f) (y >>= g) :=
  fun p hp => (hxy p hp).bind fun a q hle => hfg a q (Nat.lt_of_le_of_lt hle hp)

theorem ite {c : Prop} [Decidable c] {x y x' y' : Step α} (hx : Agrees b x x')
    (hy : Agrees b y y') : Agrees b (if c then x else y) (if c then x' else y') :=
  fun p hp => (hx p hp).ite (hy p hp)

theorem current {f g : Token → Step β} (h : ∀ t, Agrees b (f t) (g t)) :
    Agrees b (current >>= f) (current >>= g) :=
  fun p hp => .current (h _ p hp)

theorem peekKind {f g : TokenKind → Step β} (h : ∀ kind, Agrees b (f kind) (g kind)) :
    Agrees b (peekKind >>= f) (peekKind >>= g) :=
  fun p hp => .peekKind (h _ p hp)

theorem advance {x y : Step β} (h : Agrees b x y) :
    Agrees b (advance >>= fun _ => x) (advance >>= fun _ => y) :=
  fun p hp => .advance (h _ (Nat.lt_of_le_of_lt p.weight_advance_le hp))

theorem ifExpect {kind : TokenKind} {x y : Step β} {a : β} (h : Agrees b x y) :
    Agrees b (expectPeek kind >>= fun found => if found = true then x else Pure.pure a)
      (expectPeek kind >>= fun found => if found = true then y else Pure.pure a) :=
  fun p hp => .ifExpect (h _ (Nat.lt_of_le_of_lt p.weight_advance_le hp))

theorem iterate {round round' : σ → Step (Round σ α)}
    {shrinks : ∀ s, Shrinks (round s)} {shrinks' : ∀ s, Shrinks (round' s)}
    (h : ∀ s, Agrees b (round s) (round' s)) (s : σ) :
    Agrees b (Step.iterate round shrinks s) (Step.iterate round' shrinks' s) := by
  refine fun p hp => .iterate (fun t q hq => h t q ?_) s
  rcases hq with rfl | hlt
  · exact hp
  · exact Nat.lt_trans hlt hp

end Agrees

section Parts

theorem skipSemicolon_agrees : Agrees b skipSemicolon skipSemicolon := by
  refine .peekKind fun kind => .ite ?_ (.pure ())
  exact fun p _ => .of_run rfl

theorem parameters_agrees : Agrees b parameters parameters := by
  refine .peekKind fun kind => .ite (.advance (.pure _)) (.ifExpect (.current fun name => ?_))
  refine .iterate (fun read => .peekKind fun kind => .ite (.advance ?_) ?_) _
  · exact .ifExpect (.current fun name => .pure _)
  · exact .ifExpect (.pure _)

theorem integerLiteral_agrees (numeral : String) :
    Agrees b (integerLiteral numeral) (integerLiteral numeral) := by
  refine .ite (fun p _ => ⟨rfl, fun hstop => ?_⟩) (.ite (fun p _ => .of_run rfl) (.pure _))
  rw [run_halt] at hstop
  cases hstop

end Parts

section Productions

variable {expression expression' : Reader}
  (h : ∀ level, Agrees b (expression level) (expression' level))
include h

section Statements

/-- The end of every statement: an expression, and a semicolon if there is one. -/
theorem ended_agrees (g : Expr → β) :
    Agrees b (expression .lowest >>= fun value => skipSemicolon >>= fun _ => pure (value.map g))
      (expression' .lowest >>= fun value => skipSemicolon >>= fun _ => pure (value.map g)) :=
  (h _).bind fun _ => skipSemicolon_agrees.bind fun _ => .pure _

theorem statementWith_agrees : Agrees b (statementWith expression) (statementWith expression') := by
  refine .current fun token => ?_
  split
  · refine .ifExpect (.current fun name => .ifExpect (.advance ?_))
    exact ended_agrees h _
  · exact .advance (ended_agrees h _)
  · exact ended_agrees h _

theorem statementsUntil_agrees (ends : TokenKind → Bool) :
    Agrees b (statementsUntil expression ends) (statementsUntil expression' ends) := by
  refine .iterate (fun read => .current fun token => .ite (.pure _) ?_) []
  exact (statementWith_agrees h).bind fun s => .advance (.pure _)

theorem blockWith_agrees : Agrees b (blockWith expression) (blockWith expression') :=
  .advance (statementsUntil_agrees h _)

theorem programWith_agrees : Agrees b (programWith expression) (programWith expression') :=
  (statementsUntil_agrees h _).bind fun _ => .pure _

end Statements

theorem expressionRound_agrees (close : TokenKind) (read : List Expr) :
    Agrees b (expressionRound expression close read) (expressionRound expression' close read) := by
  refine .peekKind fun kind => .ite (.advance (.advance ((h _).bind fun e => ?_))) ?_
  · cases e with
    | none => exact .pure _
    | some e => exact .pure _
  · exact .ifExpect (.pure _)

theorem branches_agrees (condition : Option Expr) :
    Agrees b (branches expression condition) (branches expression' condition) := by
  refine (blockWith_agrees h).bind fun consequence => .peekKind fun kind => .ite (.advance ?_) ?_
  · exact .ifExpect ((blockWith_agrees h).bind fun alternative => .pure _)
  · exact .pure _

section Openings

variable (hp : p.advance.weight < b)
include hp

theorem expressionListWith_same (close : TokenKind) :
    Same p (expressionListWith expression close) (expressionListWith expression' close) := by
  refine .peekKind (.ite (.advance (.pure _ _)) (.advance ((h _ _ hp).bind fun e q hle => ?_)))
  cases e with
  | none => exact .pure none q
  | some e =>
      exact Agrees.iterate (expressionRound_agrees h close) [e] q (Nat.lt_of_le_of_lt hle hp)

theorem unary_same : Same p (unary expression) (unary expression') :=
  .current (.advance ((h _ _ hp).bind fun _ q _ => .pure _ q))

theorem grouped_same : Same p (grouped expression) (grouped expression') :=
  .advance ((h _ _ hp).bind fun _ _ _ => .ifExpect (.pure _ _))

theorem conditional_same : Same p (conditional expression) (conditional expression') := by
  refine .ifExpect (Agrees.advance ((h _).bind fun condition => ?_) _ hp)
  exact .ifExpect (.ifExpect (branches_agrees h condition))

theorem functionLiteral_same :
    Same p (functionLiteral expression) (functionLiteral expression') := by
  refine .ifExpect (Agrees.bind parameters_agrees (fun names => ?_) _ hp)
  cases names with
  | none => exact .pure none
  | some names => exact .ifExpect ((blockWith_agrees h).bind fun body => .pure _)

theorem arrayLiteral_same : Same p (arrayLiteral expression) (arrayLiteral expression') :=
  (expressionListWith_same h hp .rbracket).bind fun _ q _ => .pure _ q

theorem pairRound_same (read : List (Expr × Expr)) :
    Same p (pairRound expression read) (pairRound expression' read) := by
  refine .peekKind (.ite (.advance (.pure _ _)) (.advance ?_))
  refine Agrees.bind (h _) (fun key => .ifExpect (.advance ((h _).bind fun value => ?_))) _ hp
  split
  · exact .peekKind fun kind => .ite (.pure _) (.ifExpect (.pure _))
  · exact .pure _

/-- Every further pair starts where there is less to read. -/
theorem hashLiteral_same (hle : p.weight ≤ b) :
    Same p (hashLiteral expression) (hashLiteral expression') := by
  refine .iterate (fun read q hq => pairRound_same h ?_ read) []
  rcases hq with rfl | hlt
  · exact hp
  · exact Nat.lt_of_le_of_lt q.weight_advance_le (Nat.lt_of_lt_of_le hlt hle)

end Openings

theorem suffix_agrees (left : Expr) (way : Suffix) :
    Agrees b (suffix expression left way) (suffix expression' left way) := by
  cases way with
  | operator => exact .current fun op => .advance ((h _).bind fun _ => .pure _)
  | call =>
      have hitems : Agrees b (expressionListWith expression .rparen)
          (expressionListWith expression' .rparen) := fun p hp =>
        expressionListWith_same h (Nat.lt_of_le_of_lt p.weight_advance_le hp) .rparen
      exact hitems.bind fun _ => .pure _
  | index => exact .advance ((h _).bind fun _ => .ifExpect (.pure _))

/-- An operand moves on from its first token before it reads an expression, and it reads none at the end of
the text. -/
theorem operand_agrees : Agrees (b + 1) (operand expression) (operand expression') := by
  intro p hp
  have hon : p.current.kind ≠ .eof → p.advance.weight < b := by
    intro hk
    have hlt := p.weight_advance_lt (State.weight_pos_of_current hk)
    omega
  refine .current ?_
  split
  · exact .pure _ p
  · exact integerLiteral_agrees _ p hp
  · exact .pure _ p
  · exact .pure _ p
  · exact .pure _ p
  · next hk => exact unary_same h (hon (by rw [hk]; decide))
  · next hk => exact unary_same h (hon (by rw [hk]; decide))
  · next hk => exact grouped_same h (hon (by rw [hk]; decide))
  · next hk => exact conditional_same h (hon (by rw [hk]; decide))
  · next hk => exact functionLiteral_same h (hon (by rw [hk]; decide))
  · next hk => exact arrayLiteral_same h (hon (by rw [hk]; decide))
  · next hk => exact hashLiteral_same h (hon (by rw [hk]; decide)) (Nat.le_of_lt_succ hp)
  · exact .of_run rfl

/-- What continues an expression moves on to the token that says how. -/
theorem suffixRound_agrees (level : Precedence) (left : Expr) :
    Agrees (b + 1) (suffixRound expression level left) (suffixRound expression' level left) := by
  intro p hp
  refine .peekKind (.ite ?_ (.pure _ p))
  cases hway : p.peek.kind.suffix? with
  | none => exact .pure _ p
  | some way =>
      have hlt := p.weight_advance_lt
        (State.weight_pos_of_peek (TokenKind.ne_eof_of_suffix? hway))
      refine .advance (Agrees.bind (suffix_agrees h left way) (fun e => ?_) _ (by omega))
      cases e with
      | none => exact .pure _
      | some e => exact .pure _

theorem expressionWith_agrees (level : Precedence) :
    Agrees (b + 1) (expressionWith expression level) (expressionWith expression' level) := by
  refine (operand_agrees h).bind fun found => ?_
  cases found with
  | none => exact .pure none
  | some left => exact .iterate (suffixRound_agrees h level) left

end Productions

section Unlimited

/-- Below a weight it makes no difference how deep a reader may go, once that is as deep as the weight: the
induction is on the weight, since the readers inside start at less. -/
theorem expressionWithin_agrees {depth depth' : Nat} (hle : b ≤ depth) (hle' : b ≤ depth')
    (level : Precedence) : Agrees b (expressionWithin depth level) (expressionWithin depth' level) := by
  induction b generalizing depth depth' level with
  | zero => exact fun p hp => absurd hp (Nat.not_lt_zero _)
  | succ b ih =>
      cases depth with
      | zero => exact absurd hle (Nat.not_succ_le_zero b)
      | succ depth =>
          cases depth' with
          | zero => exact absurd hle' (Nat.not_succ_le_zero b)
          | succ depth' =>
              have hinner := ih (Nat.le_of_succ_le_succ hle) (Nat.le_of_succ_le_succ hle')
              exact expressionWith_agrees hinner level

/-- Reads expressions nested as deep as they may. -/
def unlimited : Reader := fun level =>
  { run := fun p => (expressionWithin (p.weight + 1) level).run p
    weight_le := fun h => (expressionWithin _ level).weight_le h }

theorem unlimited_agrees {depth : Nat} (hle : b ≤ depth) (level : Precedence) :
    Agrees b (unlimited level) (expressionWithin depth level) :=
  fun p hp => expressionWithin_agrees (Nat.le_refl _) (Nat.le_trans hp hle) level p (Nat.lt_succ_self _)

/-- It reads expressions with itself for those inside. -/
theorem unlimited_eq (level : Precedence) : unlimited level = expressionWith unlimited level := by
  ext p
  have hinner := expressionWith_agrees (unlimited_agrees (Nat.le_refl p.weight)) level
  exact (hinner p (Nat.lt_succ_self _)).1.symm

/-- No other reader does. -/
theorem eq_unlimited {expression : Reader}
    (h : ∀ level, expression level = expressionWith expression level) : expression = unlimited := by
  have hagrees : ∀ b level, Agrees b (expression level) (unlimited level) := by
    intro b
    induction b with
    | zero => exact fun _ p hp => absurd hp (Nat.not_lt_zero _)
    | succ b ih =>
        intro level
        rw [h, unlimited_eq]
        exact expressionWith_agrees ih level
  funext level
  ext p
  exact (hagrees _ level p (Nat.lt_succ_self _)).1

theorem approximates_unlimited (depth : Nat) (level : Precedence) :
    Approximates (expressionWithin depth level) (unlimited level) := by
  intro p
  have hsame := (unlimited_agrees (Nat.le_max_right depth (p.weight + 1)) level p (Nat.lt_succ_self _)).1
  rw [hsame]
  exact expressionWithin_approximates (Nat.le_max_left _ _) level p

end Unlimited

section Ends

/-- Nothing of the text is left to read. -/
def State.AtEnd (source : String) (p : State) : Prop :=
  p.current.kind = .eof ∧ p.peek.kind = .eof ∧ p.scanner.rest = [] ∧
    p.scanner.text = source.toList

/-- The state is one of a parser that reads the text. -/
def State.Follows (source : String) (p : State) : Prop :=
  ∃ s : Scanner, p = .reading s p.errors ∧ s.text = source.toList

/-- Once the end token is current, it comes again and again. -/
theorem State.Follows.atEnd {source : String} (h : p.Follows source) (hk : p.current.kind = .eof) :
    p.AtEnd source := by
  obtain ⟨s, hp, htext⟩ := h
  rw [hp] at hk ⊢
  have hpeek : s.next.2.next.1.kind = .eof := Scanner.kind_next_next_of_eof hk
  refine ⟨hk, hpeek, s.next.2.next_rest_of_eof hpeek, ?_⟩
  show s.next.2.next.2.text = source.toList
  rw [Scanner.text_next, Scanner.text_next, htext]

/-- No step leaves the text. -/
theorem Built.follows {x : Step α} (h : Built x) {source : String} {a : α} {q : State}
    (hrun : x.run p = .ok (a, q)) (hp : p.Follows source) : q.Follows source := by
  refine h.relates (R := fun p q => p.Follows source → q.Follows source) (fun _ => id)
    (fun hpq hqr hp => hqr (hpq hp)) ?_ ?_ hrun hp
  · rintro p ⟨s, hp, htext⟩
    refine ⟨s.next.2, ?_, s.text_next.trans htext⟩
    rw [hp]
    rfl
  · rintro p e ⟨s, hp, htext⟩
    exact ⟨s, congrArg (State.report · e) hp, htext⟩

/-- Statements end where they may, by induction along the loop. -/
theorem current_of_statementsUntil {expression : Reader} {ends : TokenKind → Bool} {read : Block}
    {q : State} (hrun : (statementsUntil expression ends).run p = .ok (read, q)) :
    q.current.kind = .eof ∨ ends q.current.kind = true := by
  change iterateRun _ (statementRound_shrinks expression ends) [] p = _ at hrun
  generalize ([] : Block) = start at hrun
  fun_induction iterateRun (statementRound expression ends)
    (statementRound_shrinks expression ends) start p with
  | case1 => cases hrun
  | case2 start p read r hr =>
      cases hrun
      simp only [statementRound, current, run_bind, run_inspect] at hr
      split at hr
      · next hends =>
          cases hr
          simpa using hends
      · simp only [run_bind, run_advance, run_pure] at hr
        split at hr <;> cases hr
  | case3 start p start' r hr ih => exact ih hrun

theorem current_of_programWith {expression : Reader} {whole : Program} {q : State}
    (hrun : (programWith expression).run p = .ok (whole, q)) : q.current.kind = .eof := by
  rw [programWith, run_bind] at hrun
  cases hstatements : (statementsUntil expression fun _ => false).run p with
  | error fault =>
      rw [hstatements] at hrun
      cases hrun
  | ok result =>
      rw [hstatements] at hrun
      cases hrun
      exact (current_of_statementsUntil hstatements).resolve_right Bool.false_ne_true

/-- A reader of expressions that reads those inside with itself, and so counts no nesting, is the unlimited
one: the recursion has one solution, which comes to an end from every state.  With it every program is read
to the end of its text, or up to a numeral that is too long, and whatever is parsed is read in that way. -/
theorem reading_terminates (source : String) :
    (∀ expression : Reader,
      (∀ level, expression level = expressionWith expression level) ↔ expression = unlimited) ∧
    (∀ level p, (unlimited level).run p ≠ .error .nestedTooDeeply) ∧
    (programWith unlimited).run (.ofString source) ≠ .error .nestedTooDeeply ∧
    (∀ whole last, (programWith unlimited).run (.ofString source) = .ok (whole, last) →
      last.AtEnd source) ∧
    ∀ parsed, parse source = .ok parsed → ∃ last,
      program.run (.ofString source) = .ok (parsed.program, last) ∧ last.errors = parsed.errors ∧
        (programWith unlimited).run (.ofString source) = .ok (parsed.program, last) ∧
        last.AtEnd source := by
  have hwithin := programWith_agrees
    (unlimited_agrees (Nat.le_refl ((State.ofString source).weight + 1))) _ (Nat.lt_succ_self _)
  have hends : ∀ whole last, (programWith unlimited).run (.ofString source) = .ok (whole, last) →
      last.AtEnd source := by
    intro whole last hrun
    refine State.Follows.atEnd ?_ (current_of_programWith hrun)
    rw [hwithin.1] at hrun
    refine (built_programWith (built_expressionWithin _)).follows hrun ?_
    exact ⟨.ofString source, State.ofString_eq_reading source, rfl⟩
  refine ⟨fun expression => ⟨eq_unlimited, ?_⟩, ?_, hwithin.2, hends, ?_⟩
  · rintro rfl
    exact unlimited_eq
  · intro level p
    exact (unlimited_agrees (Nat.le_refl (p.weight + 1)) level p (Nat.lt_succ_self _)).2
  · intro parsed hparsed
    unfold parse at hparsed
    cases hrun : program.run (.ofString source) with
    | error fault =>
        rw [hrun] at hparsed
        cases hparsed
    | ok result =>
        rw [hrun] at hparsed
        cases hparsed
        have hsame : program.run (.ofString source) =
            (programWith unlimited).run (.ofString source) := by
          refine (programWith_approximates (approximates_unlimited maxNesting) _).resolve_left ?_
          intro hstop
          have hfault := hrun.symm.trans hstop
          cases hfault
        have hread := hsame.symm.trans hrun
        exact ⟨result.2, rfl, rfl, hread, hends _ _ hread⟩

/-- A text with brackets that are never closed is read to its end. -/
theorem reading_terminates_unclosed :
    let source := "let f = [fn(x) \x7b \x7b 1 : (2"
    ∃ parsed last, parse source = .ok parsed ∧
      program.run (.ofString source) = .ok (parsed.program, last) ∧ last.AtEnd source := by
  intro source
  have hparse : (parse source).toOption.isSome = true := by decide +kernel
  obtain ⟨parsed, hparsed⟩ := Option.isSome_iff_exists.mp hparse
  have hok := eq_ok_of_toOption hparsed
  obtain ⟨last, hrun, -, -, hend⟩ := (reading_terminates source).2.2.2.2 parsed hok
  exact ⟨parsed, last, hok, hrun, hend⟩

end Ends

end Parser

end Scriptlet
