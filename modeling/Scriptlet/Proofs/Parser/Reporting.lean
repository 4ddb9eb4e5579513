import Scriptlet.Proofs.Parser.Moving
import Scriptlet.Proofs.Parser.Soundness

/-!
# Failures are reported

A production that yields nothing has recorded an error, and one that yields something has recorded none,
unless it has read a block: only the statements of a block may fail without the phrase around them.

**The judgement.**  `Accounts P first owed x failed`, of a step `x` that is run where the phrase around it
is lost already if `owed` holds.  Whatever comes to be `failed` was owed before or has recorded an error.
Whatever does not was not owed, and no error was recorded, unless a token that `x` has passed is of a kind
in `P`.  The tokens are counted from the current one on if `first` is zero, and from the next one on if it
is one.

**Method.**  A production goes on after a part of it has failed if it can still look for its closing token
(a condition, a key, a subscript).  From there on its failure is owed, and what it yields in the end has to
be nothing.  Blocks only come with the tokens `if` and `fn`, which `P` excuses.

**Results.**
* `accounts_expressionWithin`: one rule a production, down to expressions at every depth of nesting.
* `failures_are_reported`: what the productions do to the errors, from any state.
-/

namespace Scriptlet

/-- The kinds of token that start a phrase with a block in it. -/
def TokenKind.headsBlock (kind : TokenKind) : Prop :=
  kind = .ifWord ∨ kind = .functionWord

namespace Parser

open Step

variable {α β σ : Type} {P P' : TokenKind → Prop} {first : Nat} {owed : Prop} {failed : β → Prop}

/-- One of the tokens from the given one on up to the `n`-th after the current one is of a kind in `P`. -/
def State.Passes (P : TokenKind → Prop) (first : Nat) (p : State) (n : Nat) : Prop :=
  ∃ k, first ≤ k ∧ k ≤ n ∧ P (p.after k).current.kind

namespace State.Passes

variable {p : State} {m n : Nat}

theorem mono (h : p.Passes P first n) (hP : ∀ kind, P kind → P' kind) : p.Passes P' first n := by
  obtain ⟨k, hfirst, hle, hk⟩ := h
  exact ⟨k, hfirst, hle, hP _ hk⟩

theorem add (h : p.Passes P first m) (n : Nat) : p.Passes P first (m + n) := by
  obtain ⟨k, hfirst, hle, hk⟩ := h
  exact ⟨k, hfirst, Nat.le_add_right_of_le hle, hk⟩

/-- What is passed from a place further on is passed from here. -/
theorem shift {more : List SyntaxError} (h : (p.moved m more).Passes P first n) :
    p.Passes P (m + first) (m + n) := by
  obtain ⟨k, hfirst, hle, hk⟩ := h
  rw [after_moved, current_moved] at hk
  exact ⟨m + k, Nat.add_le_add_left hfirst m, Nat.add_le_add_left hle m, hk⟩

theorem weaken {first' : Nat} (h : p.Passes P first' n) (hle : first ≤ first') :
    p.Passes P first n := by
  obtain ⟨k, hfirst, hk⟩ := h
  exact ⟨k, Nat.le_trans hle hfirst, hk⟩

end State.Passes

/-- Some tokens were passed from `p` to `q` and one more, and errors were recorded only with a token of a kind
in `P` that is not this last one. -/
def State.Closes (P : TokenKind → Prop) (p q : State) : Prop :=
  ∃ n more, q = p.moved (n + 1) more ∧ (more = [] ∨ p.Passes P 1 n)

theorem State.Closes.after {p q : State} {m : Nat} {more : List SyntaxError}
    (h : (p.moved m more).Closes P q) (hfirst : more = [] ∨ p.Passes P 1 m) : p.Closes P q := by
  obtain ⟨n, later, rfl, hlater⟩ := h
  refine ⟨m + n, more ++ later, p.moved_moved m (n + 1) more later, ?_⟩
  rcases hfirst with rfl | hpasses
  · exact hlater.imp_right fun hpasses => hpasses.shift.weaken (Nat.le_add_left _ _)
  · exact Or.inr (hpasses.add n)

section Judgement

/-- Whatever of what the step yields is failed, has been owed or reported, and what is not has been
neither, unless a token of a kind in `P` was passed. -/
def Accounts (P : TokenKind → Prop) (first : Nat) (owed : Prop) (x : Step β) (failed : β → Prop) : Prop :=
  ∀ ⦃p : State⦄ ⦃b : β⦄ ⦃q : State⦄, x.run p = .ok (b, q) →
    ∃ n more, q = p.moved n more ∧ (failed b → owed ∨ more ≠ []) ∧
      (¬failed b → ¬owed ∧ (more = [] ∨ p.Passes P first n))

/-- The step records no error. -/
def Silent (x : Step α) : Prop :=
  ∀ ⦃p : State⦄ ⦃a : α⦄ ⦃q : State⦄, x.run p = .ok (a, q) → ∃ n, q = p.moved n []

theorem Accounts.mono {x : Step β} (h : Accounts P first owed x failed)
    (hP : ∀ kind, P kind → P' kind) : Accounts P' first owed x failed := by
  intro p b q hrun
  obtain ⟨n, more, hq, hfailed, hkept⟩ := h hrun
  refine ⟨n, more, hq, hfailed, fun hb => ⟨(hkept hb).1, ?_⟩⟩
  exact (hkept hb).2.imp_right fun hpasses => hpasses.mono hP

theorem accounts_pure {b : β} (h : failed b ↔ owed) : Accounts P first owed (pure b) failed := by
  intro p b' q hrun
  cases hrun
  exact ⟨0, [], (p.moved_nil 0).symm, fun hb => Or.inl (h.mp hb),
    fun hb => ⟨fun hd => hb (h.mpr hd), Or.inl rfl⟩⟩

theorem accounts_halt (fault : Fault) : Accounts P first owed (halt fault) failed := by
  intro p b q hrun
  cases hrun

/-- After a part that has failed, the failure of the rest is owed. -/
theorem Accounts.bind {x : Step α} {f : α → Step β} {lost : α → Prop}
    (hx : Accounts P first False x lost)
    (hf : ∀ a, Accounts P first (owed ∨ lost a) (f a) failed) :
    Accounts P first owed (x >>= f) failed := by
  intro p b q hrun
  rw [run_bind] at hrun
  cases hfirst : x.run p with
  | error fault =>
      rw [hfirst] at hrun
      cases hrun
  | ok result =>
      obtain ⟨a, r⟩ := result
      rw [hfirst] at hrun
      obtain ⟨m, more, rfl, hlost, hkept⟩ := hx hfirst
      obtain ⟨n, later, rfl, hfailed, hkept'⟩ := hf a hrun
      refine ⟨m + n, more ++ later, p.moved_moved m n more later, ?_, ?_⟩
      · intro hb
        rcases hfailed hb with (howed | ha) | hlater
        · exact Or.inl howed
        · have hmore := (hlost ha).resolve_left id
          exact Or.inr (List.append_ne_nil_of_left_ne_nil hmore later)
        · exact Or.inr (List.append_ne_nil_of_right_ne_nil more hlater)
      · intro hb
        obtain ⟨hnot, hlater⟩ := hkept' hb
        rw [not_or] at hnot
        refine ⟨hnot.1, ?_⟩
        rcases (hkept hnot.2).2 with rfl | hpasses
        · rcases hlater with rfl | hpasses
          · exact Or.inl rfl
          · exact Or.inr (hpasses.shift.weaken (Nat.le_add_left _ _))
        · exact Or.inr (hpasses.add n)

theorem Accounts.afterSilent {x : Step α} {f : α → Step β} (hx : Silent x)
    (hf : ∀ a, Accounts P first owed (f a) failed) : Accounts P first owed (x >>= f) failed := by
  have hsilent : Accounts P first False x fun _ => False := by
    intro p a q hrun
    obtain ⟨n, hq⟩ := hx hrun
    exact ⟨n, [], hq, False.elim, fun _ => ⟨id, Or.inl rfl⟩⟩
  refine hsilent.bind fun a => ?_
  rw [or_false]
  exact hf a

theorem Accounts.ite {c : Prop} [Decidable c] {x y : Step β} (hx : Accounts P first owed x failed)
    (hy : Accounts P first owed y failed) :
    Accounts P first owed (if c then x else y) failed := by
  by_cases hc : c
  · rw [if_pos hc]
    exact hx
  · rw [if_neg hc]
    exact hy

theorem silent_peekKind : Silent peekKind := by
  intro p kind q hrun
  cases hrun
  exact ⟨0, (p.moved_nil 0).symm⟩

theorem silent_advance : Silent advance := by
  intro p u q hrun
  cases hrun
  exact ⟨1, (p.moved_nil 1).symm⟩

theorem silent_skipSemicolon : Silent skipSemicolon := by
  intro p u q hrun
  rw [skipSemicolon, run_bind, peekKind, run_inspect] at hrun
  simp only at hrun
  split at hrun
  · exact silent_advance hrun
  · cases hrun
    exact ⟨0, (p.moved_nil 0).symm⟩

/-- After a movement the current token is one that has been passed. -/
theorem Accounts.next {y : Step β} (hy : Accounts P 0 owed y failed) :
    Accounts P 1 owed (advance >>= fun _ => y) failed := by
  intro p b q hrun
  obtain ⟨n, more, rfl, hfailed, hkept⟩ := hy (p := p.advance) hrun
  have hadvance : p.advance = p.moved 1 [] := (p.moved_nil 1).symm
  refine ⟨1 + n, more, ?_, hfailed, fun hb => ⟨(hkept hb).1, ?_⟩⟩
  · rw [hadvance, State.moved_moved, List.nil_append]
  · refine (hkept hb).2.imp_right fun hpasses => ?_
    rw [hadvance] at hpasses
    exact hpasses.shift

theorem Accounts.fromCurrent {x : Step β} (h : Accounts P 1 owed x failed) :
    Accounts P 0 owed x failed := by
  intro p b q hrun
  obtain ⟨n, more, hq, hfailed, hkept⟩ := h hrun
  refine ⟨n, more, hq, hfailed, fun hb => ⟨(hkept hb).1, ?_⟩⟩
  exact (hkept hb).2.imp_right fun hpasses => hpasses.weaken (Nat.zero_le 1)

theorem Accounts.current {f : Token → Step β} (hf : ∀ t, Accounts P first owed (f t) failed) :
    Accounts P first owed (current >>= f) failed :=
  fun p _ _ hrun => hf p.current hrun

/-- Where the current token is excused, so are all errors. -/
theorem Accounts.excused {f : Token → Step β}
    (hf : ∀ t, Accounts P 0 owed (f t) failed ∨
      P t.kind ∧ Accounts (fun _ => True) 0 owed (f t) failed) :
    Accounts P 0 owed (Step.current >>= f) failed := by
  intro p b q hrun
  rcases hf p.current with h | ⟨hhead, h⟩
  · exact h hrun
  · obtain ⟨n, more, hq, hfailed, hkept⟩ := h hrun
    exact ⟨n, more, hq, hfailed, fun hb =>
      ⟨(hkept hb).1, Or.inr ⟨0, Nat.le_refl 0, Nat.zero_le n, hhead⟩⟩⟩

/-- A token that was wanted and is not there is reported, so nothing may come of it. -/
theorem Accounts.ifExpect {kind : TokenKind} {x : Step β} {b : β} (hb : failed b)
    (hx : Accounts P first owed x failed) :
    Accounts P first owed (expectPeek kind >>= fun found => if found = true then x else pure b)
      failed := by
  have hexpect : Accounts P first False (expectPeek kind) fun found => found = false := by
    intro p found q hrun
    rw [run_expectPeek] at hrun
    split at hrun
    · cases hrun
      exact ⟨1, [], (p.moved_nil 1).symm, by simp, fun _ => ⟨id, Or.inl rfl⟩⟩
    · cases hrun
      exact ⟨0, _, p.report_eq_moved _, fun _ => Or.inr (List.cons_ne_nil _ _), by simp⟩
  refine hexpect.bind fun found => ?_
  cases found with
  | true =>
      rw [if_pos rfl, Bool.true_eq_false, or_false]
      exact hx
  | false =>
      rw [if_neg Bool.false_ne_true]
      exact accounts_pure (by simp [hb])

/-- A round that goes on has not failed. -/
def Round.Failed (failed : β → Prop) : Round σ β → Prop
  | .again _ => False
  | .done b => failed b

/-- A loop accounts for what its rounds do, by induction along its own recursion. -/
theorem Accounts.iterate {round : σ → Step (Round σ β)} {shrinks : ∀ s, Shrinks (round s)}
    (hround : ∀ s, Accounts P first False (round s) (Round.Failed failed)) (s : σ) :
    Accounts P first False (Step.iterate round shrinks s) failed := by
  intro p b q hrun
  change iterateRun round shrinks s p = _ at hrun
  fun_induction iterateRun round shrinks s p with
  | case1 => cases hrun
  | case2 s p b r hr =>
      cases hrun
      exact hround s hr
  | case3 s p s' r hr ih =>
      obtain ⟨m, more, rfl, -, hkept⟩ := hround s hr
      obtain ⟨n, later, rfl, hfailed, hkept'⟩ := ih hrun
      refine ⟨m + n, more ++ later, p.moved_moved m n more later, ?_, ?_⟩
      · intro hb
        have hlater := (hfailed hb).resolve_left id
        exact Or.inr (List.append_ne_nil_of_right_ne_nil more hlater)
      · intro hb
        refine ⟨id, ?_⟩
        rcases (hkept id).2 with rfl | hpasses
        · exact (hkept' hb).2.imp_right fun hpasses => hpasses.shift.weaken (Nat.le_add_left _ _)
        · exact Or.inr (hpasses.add n)

/-- Where everything is excused, errors may be recorded and nothing come of them. -/
theorem Built.accounts {x : Step α} (h : Built x) : Accounts (fun _ => True) 0 owed x fun _ => owed := by
  intro p a q hrun
  obtain ⟨n, more, hq⟩ := h.moves hrun
  exact ⟨n, more, hq, Or.inl, fun hnot => ⟨hnot, Or.inr ⟨0, Nat.le_refl 0, Nat.zero_le n, trivial⟩⟩⟩

end Judgement

section Parameters

theorem accounts_parameterRound (read : List String) :
    Accounts P 1 False (parameterRound read) (Round.Failed (· = none)) := by
  refine .afterSilent silent_peekKind fun _ => .ite ?_ ?_
  · refine .afterSilent silent_advance fun _ => .ifExpect rfl (.current fun name => ?_)
    exact accounts_pure Iff.rfl
  · exact .ifExpect rfl (accounts_pure (by simp [Round.Failed]))

theorem accounts_parameters : Accounts P 1 False parameters (· = none) := by
  refine .afterSilent silent_peekKind fun _ => .ite ?_ (.ifExpect rfl (.current fun name => ?_))
  · exact .afterSilent silent_advance fun _ => accounts_pure (by simp)
  · exact .iterate accounts_parameterRound _

end Parameters

theorem accounts_integerLiteral (numeral : String) :
    Accounts P 1 False (integerLiteral numeral) (· = none) := by
  refine .ite (accounts_halt _) (.ite ?_ (accounts_pure (by simp)))
  intro p e q hrun
  cases hrun
  exact ⟨0, _, p.report_eq_moved _, fun _ => Or.inr (List.cons_ne_nil _ _), fun h => absurd rfl h⟩

section Productions

variable {expression : Reader}

section Excused

variable (h : ∀ level, Accounts P 0 False (expression level) (· = none))
include h

/-- The end of every statement: an expression, and a semicolon if there is one. -/
theorem accounts_ended (level : Precedence) (g : Expr → β) :
    Accounts P 0 False (expression level >>= fun value => skipSemicolon >>= fun _ =>
      pure (value.map g)) (· = none) := by
  refine (h level).bind fun value => .afterSilent silent_skipSemicolon fun _ => accounts_pure ?_
  rw [Option.map_eq_none_iff, false_or]

theorem accounts_statementWith : Accounts P 0 False (statementWith expression) (· = none) := by
  refine .current fun token => ?_
  split
  · refine .ifExpect rfl (.current fun name => .ifExpect rfl ?_)
    exact .afterSilent silent_advance fun _ => accounts_ended h _ _
  · exact .afterSilent silent_advance fun _ => accounts_ended h _ _
  · exact accounts_ended h _ _

theorem accounts_expressionRound (close : TokenKind) (read : List Expr) :
    Accounts P 1 False (expressionRound expression close read) (Round.Failed (· = none)) := by
  refine .afterSilent silent_peekKind fun _ => .ite (.afterSilent silent_advance fun _ => .next ?_) ?_
  · refine (h _).bind fun e => ?_
    cases e with
    | none => exact accounts_pure (by simp [Round.Failed])
    | some e => exact accounts_pure (by simp [Round.Failed])
  · exact .ifExpect rfl (accounts_pure (by simp [Round.Failed]))

theorem accounts_expressionListWith (close : TokenKind) :
    Accounts P 1 False (expressionListWith expression close) (· = none) := by
  refine .afterSilent silent_peekKind fun _ => .ite ?_ (.next ((h _).bind fun e => ?_))
  · exact .afterSilent silent_advance fun _ => accounts_pure (by simp)
  · cases e with
    | none => exact accounts_pure (by simp)
    | some e =>
        have hrounds : Accounts P 1 False (iterate (expressionRound expression close)
            (expressionRound_shrinks expression close) [e]) (· = none) :=
          .iterate (accounts_expressionRound h close) [e]
        simp only [reduceCtorEq, or_false]
        exact hrounds.fromCurrent

omit h in
/-- A list that is yielded ends with its closing token. -/
theorem eq_moved_of_expressionRound {close : TokenKind} {read es : List Expr} {p q : State}
    (hrun : (expressionRound expression close read).run p = .ok (.done (some es), q)) :
    q = p.moved 1 [] := by
  simp only [expressionRound, peekKind, run_bind, run_inspect] at hrun
  split at hrun
  · simp only [run_bind, run_advance] at hrun
    split at hrun
    · cases hrun
    · next e r _ =>
        cases e with
        | none => cases hrun
        | some e => cases hrun
  · simp only [run_bind, run_expectPeek] at hrun
    split at hrun
    · cases hrun
    · next found r hfound =>
        split at hfound
        · cases hfound
          cases hrun
          exact (p.moved_nil 1).symm
        · cases hfound
          cases hrun

/-- The rounds of a list, by induction along their recursion: the last one passes the closing token. -/
theorem closes_expressionRounds {close : TokenKind} {read es : List Expr} {p q : State}
    (hrun : (iterate (expressionRound expression close) (expressionRound_shrinks expression close) read).run
      p = .ok (some es, q)) : p.Closes P q := by
  change iterateRun _ _ read p = _ at hrun
  fun_induction iterateRun (expressionRound expression close) (expressionRound_shrinks expression close)
    read p with
  | case1 => cases hrun
  | case2 read p b r hr =>
      cases hrun
      exact ⟨0, [], eq_moved_of_expressionRound hr, Or.inl rfl⟩
  | case3 read p read' r hr ih =>
      obtain ⟨m, more, rfl, -, hkept⟩ := accounts_expressionRound h close read hr
      exact (ih hrun).after (hkept id).2

/-- A list that is yielded has passed its closing token after all tokens that may excuse an error. -/
theorem closes_expressionListWith {close : TokenKind} {es : List Expr} {p q : State}
    (hrun : (expressionListWith expression close).run p = .ok (some es, q)) : p.Closes P q := by
  have hadvance : p.advance = p.moved 1 [] := (p.moved_nil 1).symm
  simp only [expressionListWith, peekKind, run_bind, run_inspect] at hrun
  split at hrun
  · cases hrun
    exact ⟨0, [], hadvance, Or.inl rfl⟩
  · simp only [run_bind, run_advance] at hrun
    split at hrun
    · cases hrun
    · next e r hr =>
        cases e with
        | none => cases hrun
        | some e =>
            obtain ⟨m, more, rfl, -, hkept⟩ := h _ hr
            have hmoved : p.advance.moved m more = p.moved (1 + m) more := by
              rw [hadvance, State.moved_moved, List.nil_append]
            have hfirst := (hkept (by simp)).2
            rw [hadvance] at hfirst
            rw [hmoved] at hrun
            exact (closes_expressionRounds h hrun).after (hfirst.imp_right fun hpasses => hpasses.shift)

theorem accounts_unary : Accounts P 0 False (unary expression) (· = none) := by
  refine .current fun op => .afterSilent silent_advance fun _ => (h _).bind fun right => ?_
  exact accounts_pure (by simp)

theorem accounts_grouped : Accounts P 0 False (grouped expression) (· = none) := by
  refine .afterSilent silent_advance fun _ => (h _).bind fun e => .ifExpect rfl (accounts_pure ?_)
  rw [false_or]

theorem accounts_pairRound (read : List (Expr × Expr)) :
    Accounts P 0 False (pairRound expression read) (Round.Failed (· = none)) := by
  refine .afterSilent silent_peekKind fun _ => .ite ?_ ?_
  · exact .afterSilent silent_advance fun _ => accounts_pure (by simp [Round.Failed])
  · refine .afterSilent silent_advance fun _ => (h _).bind fun key => .ifExpect rfl ?_
    refine .afterSilent silent_advance fun _ => (h _).bind fun value => ?_
    split
    · simp only [reduceCtorEq, or_false]
      refine .afterSilent silent_peekKind fun _ => .ite (accounts_pure Iff.rfl) ?_
      exact .ifExpect rfl (accounts_pure Iff.rfl)
    · next hlost =>
        refine accounts_pure ?_
        cases key with
        | none => simp [Round.Failed]
        | some k =>
            cases value with
            | none => simp [Round.Failed]
            | some v => exact (hlost k v rfl rfl).elim

theorem accounts_suffix (left : Expr) (way : Suffix) :
    Accounts P 0 False (suffix expression left way) (· = none) := by
  cases way with
  | operator =>
      refine .current fun op => .afterSilent silent_advance fun _ => (h _).bind fun right => ?_
      exact accounts_pure (by simp)
  | call =>
      refine (accounts_expressionListWith h _).fromCurrent.bind fun arguments => ?_
      exact accounts_pure (by simp)
  | index =>
      refine .afterSilent silent_advance fun _ => (h _).bind fun subscript => ?_
      exact .ifExpect rfl (accounts_pure (by simp))

theorem accounts_suffixRound (level : Precedence) (left : Expr) :
    Accounts P 0 False (suffixRound expression level left) (Round.Failed (· = none)) := by
  have hdone : Accounts P 0 False (pure (Round.done (some left) : Round Expr (Option Expr)))
      (Round.Failed (· = none)) :=
    accounts_pure (by simp [Round.Failed])
  refine .afterSilent silent_peekKind fun kind => .ite ?_ hdone
  cases kind.suffix? with
  | none => exact hdone
  | some way =>
      refine .afterSilent silent_advance fun _ => (accounts_suffix h left way).bind fun e => ?_
      cases e with
      | none => exact accounts_pure (by simp [Round.Failed])
      | some e => exact accounts_pure (by simp [Round.Failed])

end Excused

variable (hbuilt : ∀ level, Built (expression level))
include hbuilt

/-- A condition that has failed is owed, and whatever the branches record adds to that. -/
theorem accounts_branches (condition : Option Expr) :
    Accounts (fun _ => True) 0 (condition = none) (branches expression condition) (· = none) := by
  have hblock : Accounts (fun _ => True) 0 False (blockWith expression) fun _ => False :=
    (built_blockWith hbuilt).accounts
  refine hblock.bind fun consequence => .afterSilent silent_peekKind fun _ => .ite ?_ ?_
  · refine .afterSilent silent_advance fun _ => .ifExpect rfl (hblock.bind fun alternative => ?_)
    exact accounts_pure (by simp)
  · exact accounts_pure (by simp)

theorem accounts_functionLiteral :
    Accounts (fun _ => True) 0 False (functionLiteral expression) (· = none) := by
  refine .ifExpect rfl (accounts_parameters.fromCurrent.bind fun names => ?_)
  cases names with
  | none => exact accounts_pure (by simp)
  | some names =>
      simp only [reduceCtorEq, or_false]
      have hblock : Accounts (fun _ => True) 0 False (blockWith expression) fun _ => False :=
        (built_blockWith hbuilt).accounts
      exact .ifExpect rfl (hblock.bind fun body => accounts_pure (by simp))

variable (h : ∀ level, Accounts TokenKind.headsBlock 0 False (expression level) (· = none))
include h

theorem accounts_conditional :
    Accounts (fun _ => True) 0 False (conditional expression) (· = none) := by
  have hany : ∀ level, Accounts (fun _ => True) 0 False (expression level) (· = none) :=
    fun level => (h level).mono fun _ _ => trivial
  refine .ifExpect rfl (.afterSilent silent_advance fun _ => (hany _).bind fun condition => ?_)
  rw [false_or]
  exact .ifExpect rfl (.ifExpect rfl (accounts_branches hbuilt condition))

theorem accounts_operand :
    Accounts TokenKind.headsBlock 0 False (operand expression) (· = none) := by
  refine .excused fun token => ?_
  have hliteral : ∀ e : Expr,
      Accounts TokenKind.headsBlock 0 False (pure (some e)) (· = none) :=
    fun _ => accounts_pure (by simp)
  split
  · exact Or.inl (hliteral _)
  · exact Or.inl (accounts_integerLiteral _).fromCurrent
  · exact Or.inl (hliteral _)
  · exact Or.inl (hliteral _)
  · exact Or.inl (hliteral _)
  · exact Or.inl (accounts_unary h)
  · exact Or.inl (accounts_unary h)
  · exact Or.inl (accounts_grouped h)
  · next hkind => exact Or.inr ⟨Or.inl hkind, accounts_conditional hbuilt h⟩
  · next hkind => exact Or.inr ⟨Or.inr hkind, accounts_functionLiteral hbuilt⟩
  · refine Or.inl ((accounts_expressionListWith h _).fromCurrent.bind fun elements => ?_)
    exact accounts_pure (by simp)
  · exact Or.inl (.iterate (accounts_pairRound h) [])
  · refine Or.inl fun p e q hrun => ?_
    cases hrun
    exact ⟨0, _, p.report_eq_moved _, fun _ => Or.inr (List.cons_ne_nil _ _),
      fun hsome => absurd rfl hsome⟩

theorem accounts_expressionWith (level : Precedence) :
    Accounts TokenKind.headsBlock 0 False (expressionWith expression level) (· = none) := by
  refine (accounts_operand hbuilt h).bind fun found => ?_
  cases found with
  | none => exact accounts_pure (by simp)
  | some left =>
      simp only [reduceCtorEq, or_false]
      exact .iterate (accounts_suffixRound h level) left

end Productions

theorem accounts_expressionWithin (depth : Nat) (level : Precedence) :
    Accounts TokenKind.headsBlock 0 False (expressionWithin depth level) (· = none) := by
  induction depth generalizing level with
  | zero => exact accounts_halt _
  | succ depth ih => exact accounts_expressionWith (built_expressionWithin depth) ih level

/-- What the judgement says of a production that starts after the current token or on it. -/
theorem Accounts.of_run {x : Step (Option α)} (hx : Accounts P first False x (· = none)) {p : State}
    {found : Option α} {q : State} (hrun : x.run p = .ok (found, q)) :
    ∃ n more, q = p.moved n more ∧ (found = none → more ≠ []) ∧
      (found ≠ none → (∀ k, first ≤ k → k ≤ n → ¬P (p.after k).current.kind) → more = []) := by
  obtain ⟨n, more, hq, hfailed, hkept⟩ := hx hrun
  refine ⟨n, more, hq, fun hnone => (hfailed hnone).resolve_left id, fun hsome hfree => ?_⟩
  refine (hkept hsome).2.resolve_right ?_
  rintro ⟨k, hfirst, hle, hk⟩
  exact hfree k hfirst hle hk

/-- Let a production that is started in any state `p` end in the state `q`.  Then it has moved some number
of tokens on and added some errors to those of `p`, and if it yields nothing, it has added at least one.
An expression, expressions between commas or parameters that are yielded have added none, unless one of
the tokens read is `if` or `fn` and so has come with a block; parameters come with none.  The token that
closes expressions between commas is not among these, whatever it is. -/
theorem failures_are_reported (p q : State) :
    (∀ s, statement.run p = .ok (s, q) → ∃ n more, q = p.moved n more ∧ (s = none → more ≠ [])) ∧
    (∀ level e, (expression level).run p = .ok (e, q) →
      ∃ n more, q = p.moved n more ∧ (e = none → more ≠ []) ∧
        (e ≠ none → (∀ k, k ≤ n → ¬(p.after k).current.kind.headsBlock) → more = [])) ∧
    (∀ close es, (expressionList close).run p = .ok (es, q) →
      ∃ n more, q = p.moved n more ∧ (es = none → more ≠ []) ∧
        (es ≠ none → (∀ k, 1 ≤ k → k < n → ¬(p.after k).current.kind.headsBlock) → more = [])) ∧
    (∀ names, parameters.run p = .ok (names, q) →
      ∃ n more, q = p.moved n more ∧ (names = none → more ≠ []) ∧ (names ≠ none → more = [])) ∧
    (∀ body, block.run p = .ok (body, q) → ∃ n more, q = p.moved n more) ∧
    (∀ whole, program.run p = .ok (whole, q) → ∃ n more, q = p.moved n more) := by
  have hexpression := accounts_expressionWithin maxNesting
  have hbuilt := built_expressionWithin maxNesting
  refine ⟨?statement, ?expression, ?list, ?parameters, ?block, ?program⟩
  case statement =>
    intro s hrun
    obtain ⟨n, more, hq, hnone, -⟩ := (accounts_statementWith hexpression).of_run hrun
    exact ⟨n, more, hq, hnone⟩
  case expression =>
    intro level e hrun
    obtain ⟨n, more, hq, hnone, hsome⟩ := (hexpression level).of_run hrun
    exact ⟨n, more, hq, hnone, fun he hfree => hsome he fun k _ => hfree k⟩
  case list =>
    intro close es hrun
    cases es with
    | none =>
        obtain ⟨n, more, hq, hnone, -⟩ := (accounts_expressionListWith hexpression close).of_run hrun
        exact ⟨n, more, hq, hnone, fun hsome => absurd rfl hsome⟩
    | some es =>
        obtain ⟨n, more, hq, hkept⟩ := closes_expressionListWith hexpression hrun
        refine ⟨n + 1, more, hq, nofun, fun _ hfree => ?_⟩
        refine hkept.resolve_right ?_
        rintro ⟨k, hfirst, hle, hk⟩
        exact hfree k hfirst (Nat.lt_succ_of_le hle) hk
  case parameters =>
    intro names hrun
    obtain ⟨n, more, hq, hnone, hsome⟩ :=
      (accounts_parameters (P := fun _ => False)).of_run hrun
    exact ⟨n, more, hq, hnone, fun hnames => hsome hnames fun _ _ _ => id⟩
  case block =>
    intro body hrun
    exact (built_blockWith hbuilt).moves hrun
  case program =>
    intro whole hrun
    exact built_program.moves hrun

/-- In the middle of a text: a list that lacks an item is nothing and has been reported, parameters are
something and nothing has been reported. -/
theorem failures_are_reported_amid :
    let p := (State.ofString "let x = [1, 2, ]; fn(a, b) \x7b ) \x7d").after 3
    let r := p.after 8
    (∃ q more, (expressionList .rbracket).run p = .ok (none, q) ∧ q.errors = p.errors ++ more ∧
        more ≠ []) ∧
      ∃ q, parameters.run r = .ok (some ["a", "b"], q) ∧ q.errors = r.errors := by
  intro p r
  have hlist : ((expressionList .rbracket).run p).toOption.map Prod.fst = some none := by
    decide +kernel
  have hparameters : (parameters.run r).toOption.map Prod.fst = some (some ["a", "b"]) := by
    decide +kernel
  constructor
  · obtain ⟨⟨es, q⟩, hrun, hes⟩ := Option.map_eq_some_iff.mp hlist
    cases hes
    have hok := eq_ok_of_toOption hrun
    obtain ⟨n, more, rfl, hmore, -⟩ := (failures_are_reported p q).2.2.1 _ _ hok
    exact ⟨_, more, hok, rfl, hmore rfl⟩
  · obtain ⟨⟨names, q⟩, hrun, hnames⟩ := Option.map_eq_some_iff.mp hparameters
    cases hnames
    have hok := eq_ok_of_toOption hrun
    obtain ⟨n, more, rfl, -, hmore⟩ := (failures_are_reported r q).2.2.2.1 _ hok
    refine ⟨_, hok, ?_⟩
    rw [State.errors_moved, hmore (by simp), List.append_nil]

end Parser

end Scriptlet
