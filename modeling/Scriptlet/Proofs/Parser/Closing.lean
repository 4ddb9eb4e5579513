import Scriptlet.Proofs.Scanner.Braces
import Scriptlet.Proofs.Parser.Productions
import Scriptlet.Proofs.Parser.Soundness

/-!
# Reading with closing braces at the end

A text may end inside blocks.  Closing braces after it are then taken up by these blocks, the inner
before the outer, and nothing else is read differently.

**The judgement.**  `Mirrored x a ws ws'`: with any number of closing braces after the words `ws`, the
step `x` still yields `a` and leaves what it left before, followed by the braces it has not taken up.
It takes up braces only if it came to the end of the words.  `Withstands x`: so it is whenever `x` yields
without a new error; `WithstandsOn x`: whenever it does so from a word on.

**Method.**  A step looks at the current token and the one after it, so where it saw the end of the text
it now sees a closing brace.  Productions make no difference between the two, or they report an error
at the end; the only exceptions are blocks, which end at both, and hash literals, which end at a
brace but not at the end of the text.

**Results.**
* `withstands_expressionWithin`, `withstands_statementWith`: expressions and statements withstand braces.
* `yields_statements_braced`: a program that is read without errors is read the same with up to so many
  braces after it, and with more of them its statements are followed by the rest.
-/

namespace Scriptlet

namespace Parser

open Step

variable {α β σ : Type}

section Outcomes

/-- A parser that stands in one state has one list of words ahead. -/
theorem words_eq_of_reading_eq {s t : Scanner} {errors errors' : List SyntaxError}
    (h : State.reading s errors = State.reading t errors') : s.words = t.words := by
  have hwords : ∀ {s t : Scanner}, s.next.1 = t.next.1 → s.next.2.words = t.next.2.words →
      s.words = t.words := by
    intro s t hnext hrest
    by_cases hk : s.next.1.kind = .eof
    · rw [Scanner.words_of_eof hk, Scanner.words_of_eof (hnext ▸ hk)]
    · have hk' : t.next.1.kind ≠ .eof := hnext ▸ hk
      rw [Scanner.words_of_ne_eof hk, Scanner.words_of_ne_eof hk', hnext, hrest]
  have hcurrent : s.next.1 = t.next.1 := congrArg State.current h
  have hpeek : s.next.2.next.1 = t.next.2.next.1 := congrArg State.peek h
  have hscanner : s.next.2.next.2 = t.next.2.next.2 := congrArg State.scanner h
  exact hwords hcurrent (hwords hpeek (congrArg Scanner.words hscanner))

theorem Yields.and {x : Step α} {A B : α → List Word → List Word → Prop} (hA : Yields x A)
    (hB : Yields x B) : Yields x fun a ws ws' => A a ws ws' ∧ B a ws ws' := by
  intro s errors a q hrun
  obtain ⟨t, more, rfl, ha⟩ := hA s errors a q hrun
  obtain ⟨t', more', heq, hb⟩ := hB s errors a _ hrun
  refine ⟨t, more, rfl, fun hmore => ⟨ha hmore, ?_⟩⟩
  have hmore' : more' = [] := by
    have herrors : errors ++ more = errors ++ more' := congrArg State.errors heq
    rw [← List.append_cancel_left herrors, hmore]
  rw [words_eq_of_reading_eq heq]
  exact hb hmore'

/-- What a step is known to yield holds where it reads. -/
theorem Yields.of_reads {x : Step α} {R : α → List Word → List Word → Prop} (hx : Yields x R)
    {s : Scanner} {a : α} {ws' : List Word} (hreads : Reads x s.words a ws') : R a s.words ws' := by
  obtain ⟨t, rfl, hrun⟩ := hreads s [] rfl
  obtain ⟨t', more, heq, hR⟩ := hx s [] a _ hrun
  have hmore : more = [] := (congrArg State.errors heq).symm
  rw [words_eq_of_reading_eq heq]
  exact hR hmore

end Outcomes

section Mirroring

/-- With closing braces after the words the step yields the same, and leaves the braces that it has not
taken up. -/
def Mirrored (x : Step α) (a : α) (ws ws' : List Word) : Prop :=
  ∃ taken, (ws' ≠ [] → ws ≠ [] ∧ taken = 0) ∧
    ∀ m, Reads x (ws ++ braces m) a (ws' ++ braces (m - taken))

/-- Whenever the step yields without a new error, it does the same with closing braces after the
words. -/
def Withstands (x : Step α) : Prop :=
  Yields x (Mirrored x)

/-- The same for a step that is started on a word. -/
def WithstandsOn (x : Step α) : Prop :=
  Yields x fun a ws ws' => ws ≠ [] → Mirrored x a ws ws'

theorem Withstands.on {x : Step α} (hx : Withstands x) : WithstandsOn x :=
  hx.mono fun _ _ _ h _ => h

theorem Mirrored.bind {x : Step α} {f : α → Step β} {a : α} {b : β} {ws ws' ws'' : List Word}
    (hx : Mirrored x a ws ws') (hf : Mirrored (f a) b ws' ws'') : Mirrored (x >>= f) b ws ws'' := by
  obtain ⟨i, hi, hx⟩ := hx
  obtain ⟨j, hj, hf⟩ := hf
  refine ⟨i + j, ?_, ?_⟩
  · intro hws
    obtain ⟨hmid, rfl⟩ := hj hws
    exact hi hmid
  · intro m
    rw [Nat.sub_add_eq]
    exact (hx m).bind (hf (m - i))

theorem withstands_pure (a : α) : Withstands (pure a) :=
  Yields.pure fun _ => ⟨0, fun h => ⟨h, rfl⟩, fun _ => Reads.pure a _⟩

theorem Withstands.bind {x : Step α} {f : α → Step β} (hx : Withstands x)
    (hf : ∀ a, Withstands (f a)) : Withstands (x >>= f) := by
  apply Yields.bind hx
  intro a
  apply (hf a).mono
  intro b ws' ws'' hmirrored ws hfirst
  exact hfirst.bind hmirrored

theorem withstands_halt (fault : Fault) : Withstands (halt fault : Step α) :=
  yields_halt fault

theorem withstands_report (e : SyntaxError) (f : Unit → Step α)
    (hf : ∀ a, Yields (f a) fun _ _ _ => True) : Withstands (report e >>= f) := by
  apply (yields_report e).bind
  intro a
  apply (hf a).mono
  intro b ws' ws'' _ ws hfalse
  exact hfalse.elim

/-- At the end of the words there is nothing to move on from, but a brace is taken up. -/
theorem withstands_advance : Withstands advance := by
  apply yields_advance.mono
  rintro _ ws _ rfl
  cases ws with
  | nil =>
      refine ⟨1, fun h => absurd rfl h, fun m => ?_⟩
      have hreads := reads_advance (braces m)
      rw [tail_braces] at hreads
      exact hreads
  | cons w rest => exact ⟨0, fun _ => ⟨List.cons_ne_nil _ _, rfl⟩, fun m => reads_advance _⟩

theorem kindAhead_append {ws : List Word} (h : ws ≠ []) (more : List Word) :
    kindAhead (ws ++ more) = kindAhead ws := by
  cases ws with
  | nil => exact absurd rfl h
  | cons w rest => rfl

theorem kindAhead_tail_append {ws : List Word} (h : ws.tail ≠ []) (more : List Word) :
    kindAhead (ws ++ more).tail = kindAhead ws.tail := by
  cases ws with
  | nil => exact absurd rfl h
  | cons w rest => exact kindAhead_append h more

theorem kindAhead_braces (m : Nat) : kindAhead (braces m) = .eof ∨ kindAhead (braces m) = .rbrace := by
  cases m with
  | zero => exact Or.inl rfl
  | succ m => exact Or.inr rfl

/-- The word after the first is as it was, or the words end there and a brace may have come instead. -/
theorem kindAhead_tail_braces (ws : List Word) (m : Nat) :
    kindAhead (ws ++ braces m).tail = kindAhead ws.tail ∨
      kindAhead ws.tail = .eof ∧ kindAhead (ws ++ braces m).tail = .rbrace := by
  by_cases h : ws.tail = []
  · have hbraces : ∃ k, (ws ++ braces m).tail = braces k := by
      cases ws with
      | nil => exact ⟨m - 1, tail_braces m⟩
      | cons w rest =>
          rw [List.tail_cons] at h
          subst h
          exact ⟨m, rfl⟩
    obtain ⟨k, hk⟩ := hbraces
    rw [hk, h, kindAhead_nil]
    rcases kindAhead_braces k with heof | hbrace
    · exact Or.inl heof
    · exact Or.inr ⟨rfl, hbrace⟩
  · exact Or.inl (kindAhead_tail_append h _)

/-- A step that looks ahead must not tell a closing brace from the end. -/
theorem Withstands.peek {f : TokenKind → Step β} (hf : ∀ kind, Withstands (f kind))
    (hend : f .rbrace = f .eof) : Withstands (peekKind >>= f) := by
  apply yields_peekKind.bind
  intro kind
  apply (hf kind).mono
  rintro b ws ws' ⟨taken, htaken, hreads⟩ _ ⟨rfl, rfl⟩
  refine ⟨taken, htaken, fun m => (reads_peekKind _).bind ?_⟩
  rcases kindAhead_tail_braces ws m with hsame | ⟨heof, hbrace⟩
  · rw [hsame]
    exact hreads m
  · rw [hbrace, hend, ← heof]
    exact hreads m

section Branches

variable {x y : Step β} {kind : TokenKind}

theorem Withstands.ifPeek (heof : .eof ≠ kind) (hbrace : .rbrace ≠ kind) (hx : Withstands x)
    (hy : Withstands y) : Withstands (peekKind >>= fun k => if k = kind then x else y) := by
  apply Withstands.peek
  · intro k
    by_cases hk : k = kind
    · rw [if_pos hk]
      exact hx
    · rw [if_neg hk]
      exact hy
  · rw [if_neg heof, if_neg hbrace]

/-- A step that looks for a closing brace is not started at the end if it does not find one. -/
theorem Withstands.ifBrace (hx : Withstands x) (hy : Withstands y)
    (hsees : Yields y fun _ ws _ => ws.tail ≠ []) :
    Withstands (peekKind >>= fun k => if k = .rbrace then x else y) := by
  apply Yields.ifPeek
  · apply hx.mono
    rintro b ws ws' ⟨taken, htaken, hreads⟩ hk
    have htail : ws.tail ≠ [] := by
      intro hnil
      rw [hnil] at hk
      cases hk
    refine ⟨taken, htaken, fun m => (hreads m).ifPeek ?_⟩
    rw [kindAhead_tail_append htail, hk]
  · apply (hy.and hsees).mono
    rintro b ws ws' ⟨⟨taken, htaken, hreads⟩, htail⟩ hk
    refine ⟨taken, htaken, fun m => (hreads m).ifPeek_not ?_⟩
    rw [kindAhead_tail_append htail]
    exact hk

theorem Withstands.ifExpect {b : β} (hk : kind ≠ .eof) (hx : WithstandsOn x) :
    Withstands (expectPeek kind >>= fun found => if found = true then x else pure b) := by
  refine Yields.ifExpect hk ?_ (Yields.pure fun _ => trivial)
  apply hx.mono
  rintro b _ ws' h w text rest rfl
  obtain ⟨taken, htaken, hreads⟩ := h (List.cons_ne_nil _ _)
  refine ⟨taken, fun hws => ⟨List.cons_ne_nil _ _, (htaken hws).2⟩, fun m => ?_⟩
  exact (hreads m).ifExpect

end Branches

section Current

variable {f : Token → Step β}

theorem kind_eq_of_word_eq {t t' : Token} (h : t.word = t'.word) : t.kind = t'.kind :=
  congrArg Word.kind h

theorem text_eq_of_word_eq {t t' : Token} (h : t.word = t'.word) : t.text = t'.text :=
  congrArg Word.text h

/-- A step that is started on a word sees the same word. -/
theorem WithstandsOn.current (hword : ∀ t t', t.word = t'.word → f t = f t')
    (hf : ∀ t, WithstandsOn (f t)) : WithstandsOn (current >>= f) := by
  apply Yields.current
  intro token
  apply (hf token).mono
  intro b ws ws' h hshows hws
  obtain ⟨taken, htaken, hreads⟩ := h hws
  refine ⟨taken, htaken, fun m => ?_⟩
  cases ws with
  | nil => exact absurd rfl hws
  | cons w rest =>
      apply reads_current_bind
      intro t ht
      rw [hword t token (ht.trans hshows.2.symm)]
      exact hreads m

theorem reads_current_end {b : β} {ws' : List Word}
    (hf : ∀ t : Token, t.kind = .eof → Reads (f t) [] b ws') :
    Reads (Step.current >>= f) [] b ws' := by
  intro s errors hs
  obtain ⟨s', hs', hrun⟩ := hf s.next.1 (s.words_eq_nil_iff.mp hs) s errors hs
  exact ⟨s', hs', hrun⟩

/-- A step that looks at the kind of the current token must not tell a closing brace from the end. -/
theorem Withstands.current (hkind : ∀ t t', t.kind = t'.kind → f t = f t')
    (hend : ∀ t t', t.kind = .rbrace → t'.kind = .eof → f t = f t')
    (hf : ∀ t, Withstands (f t)) : Withstands (Step.current >>= f) := by
  apply Yields.current
  intro token
  apply (hf token).mono
  rintro b ws ws' ⟨taken, htaken, hreads⟩ hshows
  refine ⟨taken, htaken, fun m => ?_⟩
  have hread := hreads m
  cases ws with
  | nil =>
      cases m with
      | zero =>
          apply reads_current_end
          intro t ht
          rw [hkind t token (ht.trans hshows.symm)]
          exact hread
      | succ m =>
          rw [List.nil_append, braces_succ] at hread ⊢
          apply reads_current_bind
          intro t ht
          rw [hend t token (congrArg Word.kind ht) hshows]
          exact hread
  | cons w rest =>
      apply reads_current_bind
      intro t ht
      rw [hkind t token (kind_eq_of_word_eq (ht.trans hshows.2.symm))]
      exact hread

end Current

theorem Withstands.iterate {round : σ → Step (Round σ β)} {shrinks : ∀ s, Shrinks (round s)}
    (hround : ∀ state, Withstands (round state)) (state : σ) :
    Withstands (iterate round shrinks state) := by
  refine Yields.iterate (I := fun state => Mirrored (Step.iterate round shrinks state)) ?_ state
  intro state
  apply (hround state).mono
  rintro r ws ws' ⟨i, hi, hreads⟩
  cases r with
  | done b => exact ⟨i, hi, fun m => reads_iterate_done (hreads m)⟩
  | again state' =>
      rintro b ws'' ⟨j, hj, hnext⟩
      refine ⟨i + j, ?_, ?_⟩
      · intro hws
        obtain ⟨hmid, rfl⟩ := hj hws
        exact hi hmid
      · intro m
        rw [Nat.sub_add_eq]
        exact reads_iterate_again (hreads m) (hnext (m - i))

end Mirroring

theorem withstands_skipSemicolon : Withstands skipSemicolon :=
  Withstands.ifPeek (by decide) (by decide) withstands_advance (withstands_pure _)

/-- Whether nothing is derived. -/
def Phrase.isEmpty : Phrase → Bool
  | statements [] => true
  | pairs [] => true
  | _ => false

/-- What is not empty starts with a word, and with no closing brace. -/
theorem kindAhead_of_derives {φ : Phrase} {ws rest : List Word} (h : Derives φ ws rest)
    (hφ : φ.isEmpty = false) : kindAhead ws ≠ .eof ∧ kindAhead ws ≠ .rbrace := by
  induction h with
  | done => cases hφ
  | noPairs => cases hφ
  | more _ _ ih => exact ih rfl
  | expr _ _ ih => exact ih rfl
  | unary hop =>
      rw [kindAhead_cons]
      rcases hop with hop | hop
      · rw [hop]
        decide
      · rw [hop]
        decide
  | binary _ _ _ ih => exact ih rfl
  | emptyCall _ ih => exact ih rfl
  | call _ _ ih => exact ih rfl
  | index _ _ ih => exact ih rfl
  | lastExpression _ ih => exact ih rfl
  | moreExpressions _ _ ih => exact ih rfl
  | lastPair _ _ ih => exact ih rfl
  | morePairs _ _ _ ih => exact ih rfl
  | _ => exact ⟨by simp, by simp⟩

theorem Finds.ne_nil {x : Step (Option Expr)} (hx : Finds x .expression) :
    Yields x fun _ ws _ => ws ≠ [] := by
  apply hx.mono
  rintro r ws ws' ⟨e, -, hder⟩ rfl
  exact (kindAhead_of_derives hder rfl).1 rfl

/-- No expression is read after the last word. -/
theorem Finds.yields_after_advance {x : Step (Option Expr)} (hx : Finds x .expression)
    {f : Option Expr → Step β} (hf : ∀ r, Withstands (f r)) :
    Yields (advance >>= fun _ => x >>= f) fun _ ws _ => ws.tail ≠ [] := by
  apply yields_advance.bind
  rintro ⟨⟩
  apply hx.ne_nil.bind
  intro r
  apply (hf r).mono
  rintro b ws₁ ws₂ - _ hne ws rfl
  exact hne

section Productions

variable {expression : Reader} (hfinds : ∀ level, Finds (expression level) .expression)
  (hexpr : ∀ level, Withstands (expression level))

section Statements

include hexpr

theorem withstands_letStatement : Withstands (letStatement expression) := by
  refine Withstands.ifExpect (by decide) (WithstandsOn.current ?_ fun name => ?_)
  · intro t t' h
    simp only [text_eq_of_word_eq h]
  · refine (Withstands.ifExpect (by decide) (Withstands.on ?_)).on
    refine withstands_advance.bind fun _ => (hexpr _).bind fun value => ?_
    exact withstands_skipSemicolon.bind fun _ => withstands_pure _

theorem withstands_returnStatement : Withstands (returnStatement expression) := by
  refine withstands_advance.bind fun _ => (hexpr _).bind fun value => ?_
  exact withstands_skipSemicolon.bind fun _ => withstands_pure _

theorem withstands_expressionStatement : Withstands (expressionStatement expression) :=
  (hexpr _).bind fun _ => withstands_skipSemicolon.bind fun _ => withstands_pure _

theorem withstands_statementWith : Withstands (statementWith expression) := by
  refine Withstands.current ?_ ?_ fun token => ?_
  · intro t t' h
    simp only [h]
  · intro t t' h h'
    simp only [h, h']
  · split
    · exact withstands_letStatement hexpr
    · exact withstands_returnStatement hexpr
    · exact withstands_expressionStatement hexpr

/-- The statements of a block end at a closing brace as well as at the end. -/
theorem withstands_blockStatements : Withstands (statementsUntil expression (· = .rbrace)) := by
  refine Withstands.iterate (fun read => Withstands.current ?_ ?_ fun token => ?_) []
  · intro t t' h
    simp only [h]
  · intro t t' h h'
    simp [h, h']
  · split
    · exact withstands_pure _
    · refine (withstands_statementWith hexpr).bind fun s => ?_
      exact withstands_advance.bind fun _ => withstands_pure _

theorem withstands_blockWith : Withstands (blockWith expression) :=
  withstands_advance.bind fun _ => withstands_blockStatements hexpr

theorem withstands_expressionRounds {close : TokenKind} (hclose : close ≠ .eof)
    (read : List Expr) :
    Withstands (iterate (expressionRound expression close)
      (expressionRound_shrinks expression close) read) := by
  refine Withstands.iterate (fun read => Withstands.ifPeek (by decide) (by decide) ?_ ?_) read
  · refine withstands_advance.bind fun _ => withstands_advance.bind fun _ => ?_
    refine (hexpr _).bind fun r => ?_
    cases r with
    | none => exact withstands_pure _
    | some e => exact withstands_pure _
  · exact Withstands.ifExpect hclose (withstands_pure _).on

theorem withstands_expressionListWith {close : TokenKind} (heof : .eof ≠ close)
    (hbrace : .rbrace ≠ close) : Withstands (expressionListWith expression close) := by
  refine Withstands.ifPeek heof hbrace ?_ ?_
  · exact withstands_advance.bind fun _ => withstands_pure _
  · refine withstands_advance.bind fun _ => (hexpr _).bind fun r => ?_
    cases r with
    | none => exact withstands_pure _
    | some e => exact withstands_expressionRounds hexpr heof.symm [e]

end Statements

/-- A parameter, and what is done with its name. -/
theorem withstands_name {f : String → Step β} {b : β} (hf : ∀ text, Withstands (f text)) :
    Withstands (expectPeek .ident >>= fun found =>
      if found = true then current >>= fun name => f name.text else pure b) := by
  refine Withstands.ifExpect (by decide) (WithstandsOn.current ?_ fun name => (hf name.text).on)
  intro t t' h
  rw [text_eq_of_word_eq h]

theorem withstands_parameters : Withstands parameters := by
  have hround : ∀ read, Withstands (parameterRound read) := by
    intro read
    refine Withstands.ifPeek (by decide) (by decide) ?_ ?_
    · exact withstands_advance.bind fun _ =>
        withstands_name (f := fun text => pure (Round.again (read ++ [text]))) fun _ => withstands_pure _
    · exact Withstands.ifExpect (by decide) (withstands_pure _).on
  refine Withstands.ifPeek (by decide) (by decide) ?_ ?_
  · exact withstands_advance.bind fun _ => withstands_pure _
  · exact withstands_name (f := fun text => iterate parameterRound parameterRound_shrinks [text])
      fun text => Withstands.iterate hround [text]

theorem withstands_integerLiteral (numeral : String) : Withstands (integerLiteral numeral) := by
  unfold integerLiteral
  split
  · exact withstands_halt _
  · dsimp only
    split
    · exact withstands_report _ _ fun _ => Yields.pure fun _ => trivial
    · exact withstands_pure _

section Expressions

include hexpr

theorem withstandsOn_unary : WithstandsOn (unary expression) := by
  refine WithstandsOn.current ?_ fun op => Withstands.on ?_
  · intro t t' h
    simp only [text_eq_of_word_eq h]
  · exact withstands_advance.bind fun _ => (hexpr _).bind fun _ => withstands_pure _

theorem withstands_grouped : Withstands (grouped expression) := by
  refine withstands_advance.bind fun _ => (hexpr _).bind fun e => ?_
  exact Withstands.ifExpect (by decide) (withstands_pure _).on

theorem withstands_branches (condition : Option Expr) :
    Withstands (branches expression condition) := by
  refine (withstands_blockWith hexpr).bind fun consequence => ?_
  refine Withstands.ifPeek (by decide) (by decide) ?_ (withstands_pure _)
  refine withstands_advance.bind fun _ => Withstands.ifExpect (by decide) (Withstands.on ?_)
  exact (withstands_blockWith hexpr).bind fun _ => withstands_pure _

theorem withstands_conditional : Withstands (conditional expression) := by
  refine Withstands.ifExpect (by decide) (Withstands.on ?_)
  refine withstands_advance.bind fun _ => (hexpr _).bind fun condition => ?_
  refine Withstands.ifExpect (by decide) (Withstands.on ?_)
  exact Withstands.ifExpect (by decide) (withstands_branches hexpr condition).on

theorem withstands_functionLiteral : Withstands (functionLiteral expression) := by
  refine Withstands.ifExpect (by decide) (Withstands.on ?_)
  refine withstands_parameters.bind fun names => ?_
  cases names with
  | none => exact withstands_pure _
  | some names =>
      refine Withstands.ifExpect (by decide) (Withstands.on ?_)
      exact (withstands_blockWith hexpr).bind fun _ => withstands_pure _

theorem withstands_arrayLiteral : Withstands (arrayLiteral expression) :=
  (withstands_expressionListWith hexpr (by decide) (by decide)).bind fun _ => withstands_pure _

include hfinds

theorem withstands_suffix (left : Expr) (way : Suffix) :
    Withstands (suffix expression left way) := by
  cases way with
  | operator =>
      have hon : WithstandsOn (suffix expression left .operator) := by
        refine WithstandsOn.current ?_ fun op => Withstands.on ?_
        · intro t t' h
          simp only [kind_eq_of_word_eq h, text_eq_of_word_eq h]
        · exact withstands_advance.bind fun _ => (hexpr _).bind fun _ => withstands_pure _
      have hne : Yields (suffix expression left .operator) fun _ ws _ => ws ≠ [] := by
        refine Yields.current fun op => ?_
        refine ((hfinds _).yields_after_advance fun _ => withstands_pure _).mono ?_
        rintro r ws ws' htail - rfl
        exact htail rfl
      refine (hon.and hne).mono ?_
      rintro r ws ws' ⟨h, hws⟩
      exact h hws
  | call =>
      exact (withstands_expressionListWith hexpr (by decide) (by decide)).bind fun _ =>
        withstands_pure _
  | index =>
      refine withstands_advance.bind fun _ => (hexpr _).bind fun subscript => ?_
      exact Withstands.ifExpect (by decide) (withstands_pure _).on

/-- A key is not looked for at the end of the words, since no expression starts there. -/
theorem withstands_key {x : Step β} {f : Option Expr → Step β} (hx : Withstands x)
    (hf : ∀ key, Withstands (f key)) :
    Withstands (peekKind >>= fun k =>
      if k = .rbrace then x else advance >>= fun _ => expression .lowest >>= f) := by
  refine hx.ifBrace ?_ ((hfinds _).yields_after_advance hf)
  exact withstands_advance.bind fun _ => (hexpr _).bind hf

theorem withstands_hashLiteral : Withstands (hashLiteral expression) := by
  refine Withstands.iterate (fun read => withstands_key hfinds hexpr ?_ fun key => ?_) []
  · exact withstands_advance.bind fun _ => withstands_pure _
  · refine Withstands.ifExpect (by decide) (Withstands.on ?_)
    refine withstands_advance.bind fun _ => (hexpr _).bind fun value => ?_
    split
    · -- After the value stands a closing brace, which is left there, or a comma.
      refine (withstands_pure _).ifBrace (Withstands.ifExpect (by decide) (withstands_pure _).on) ?_
      refine Yields.ifExpect (by decide) (Yields.pure ?_) (Yields.pure fun _ => trivial)
      rintro _ w text rest rfl
      exact List.cons_ne_nil _ _
    · exact withstands_pure _

theorem withstands_operand : Withstands (operand expression) := by
  have hon : WithstandsOn (operand expression) := by
    refine WithstandsOn.current ?_ fun token => ?_
    · intro t t' h
      simp only [kind_eq_of_word_eq h, text_eq_of_word_eq h]
    · split
      · exact (withstands_pure _).on
      · exact (withstands_integerLiteral _).on
      · exact (withstands_pure _).on
      · exact (withstands_pure _).on
      · exact (withstands_pure _).on
      · exact withstandsOn_unary hexpr
      · exact withstandsOn_unary hexpr
      · exact (withstands_grouped hexpr).on
      · exact (withstands_conditional hexpr).on
      · exact (withstands_functionLiteral hexpr).on
      · exact (withstands_arrayLiteral hexpr).on
      · exact (withstands_hashLiteral hfinds hexpr).on
      · exact (withstands_report _ _ fun _ => Yields.pure fun _ => trivial).on
  refine (hon.and (finds_operand hfinds).ne_nil).mono ?_
  rintro r ws ws' ⟨h, hne⟩
  exact h hne

theorem withstands_expressionWith (level : Precedence) :
    Withstands (expressionWith expression level) := by
  refine (withstands_operand hfinds hexpr).bind fun first => ?_
  cases first with
  | none => exact withstands_pure _
  | some left =>
      refine Withstands.iterate (fun left => Withstands.peek (fun kind => ?_) rfl) left
      split
      · cases kind.suffix? with
        | none => exact withstands_pure _
        | some way =>
            refine withstands_advance.bind fun _ => ?_
            refine (withstands_suffix hfinds hexpr left way).bind fun r => ?_
            cases r with
            | none => exact withstands_pure _
            | some e => exact withstands_pure _
      · exact withstands_pure _

end Expressions

section Programs

/-- What a round of statements does, from a word that does not end them. -/
theorem reads_statementRound {ends : TokenKind → Bool} {read : Block} {ws ws' : List Word}
    {r : Round Block Block} (heof : kindAhead ws ≠ .eof) (hends : ends (kindAhead ws) = false)
    (h : Reads (statementWith expression >>= fun s => advance >>= fun _ =>
      pure (.again (read ++ s.toList))) ws r ws') :
    Reads (statementRound expression ends read) ws r ws' := by
  cases ws with
  | nil => exact absurd rfl heof
  | cons w rest =>
      apply reads_current_bind
      intro token htoken
      have hkind : token.kind = w.kind := congrArg Word.kind htoken
      have hgo : ¬(token.kind = .eof || ends token.kind) = true := by
        rw [kindAhead_cons] at heof hends
        rw [hkind, hends]
        simpa using heof
      rw [if_neg hgo]
      exact h

include hexpr hfinds

/-- A program with closing braces after it: up to so many of them its statements take up, and read as
the statements of a block they leave the others. -/
theorem yields_statements_braced (read : Block) :
    Yields (iterate (statementRound expression fun _ => false)
        (statementRound_shrinks expression fun _ => false) read) fun body ws _ =>
      ∃ k,
        (∀ m, Reads (iterate (statementRound expression (· = .rbrace))
          (statementRound_shrinks expression (· = .rbrace)) read) (ws ++ braces m) body
            (braces (m - k))) ∧
        ∀ m ≤ k, Reads (iterate (statementRound expression fun _ => false)
          (statementRound_shrinks expression fun _ => false) read) (ws ++ braces m) body [] := by
  revert read
  apply Yields.iterate
  intro read
  apply Yields.current
  intro token
  split
  · next hends =>
      apply Yields.pure
      intro ws hshows
      have hnil : ws = [] := by
        cases ws with
        | nil => rfl
        | cons w rest =>
            rw [Bool.or_false, decide_eq_true_iff] at hends
            exact absurd hends hshows.1
      subst hnil
      refine ⟨0, fun m => ?_, fun m hm => ?_⟩
      · apply reads_statements_done
        rcases kindAhead_braces m with heof | hbrace
        · exact Or.inl heof
        · exact Or.inr (decide_eq_true hbrace)
      · obtain rfl := Nat.le_zero.mp hm
        exact reads_statements_done (Or.inl rfl)
  · have hstarts : Yields (statementWith expression >>= fun s => advance >>= fun _ =>
        pure (Round.again (read ++ s.toList) : Round Block Block)) fun r ws _ =>
          (∃ read', r = .again read') ∧ kindAhead ws ≠ .eof ∧ kindAhead ws ≠ .rbrace := by
      apply (finds_statementWith hfinds).bind
      intro s
      apply yields_advance.bind
      rintro ⟨⟩
      apply Yields.pure
      rintro _ ws₁ rfl ws ⟨s', -, hder⟩
      exact ⟨⟨_, rfl⟩, kindAhead_of_derives hder rfl⟩
    have hround := (withstands_statementWith hexpr).bind fun s =>
      withstands_advance.bind fun _ =>
        withstands_pure (Round.again (read ++ s.toList) : Round Block Block)
    apply (hstarts.and hround).mono
    rintro r ws ws' ⟨⟨⟨read', rfl⟩, heof, hbrace⟩, i, -, hreads⟩ - body ws'' ⟨k, hblock, hprogram⟩
    have hws : ws ≠ [] := by
      rintro rfl
      exact heof rfl
    have hagain : ∀ ends : TokenKind → Bool, ends (kindAhead ws) = false → ∀ m,
        Reads (statementRound expression ends read) (ws ++ braces m) (.again read')
          (ws' ++ braces (m - i)) := by
      intro ends hends m
      apply reads_statementRound
      · rw [kindAhead_append hws]
        exact heof
      · rw [kindAhead_append hws]
        exact hends
      · exact hreads m
    refine ⟨i + k, fun m => ?_, fun m hm => ?_⟩
    · rw [Nat.sub_add_eq]
      exact reads_iterate_again (hagain _ (decide_eq_false hbrace) m) (hblock (m - i))
    · have hle : m - i ≤ k := by omega
      exact reads_iterate_again (hagain _ rfl m) (hprogram (m - i) hle)

end Programs

end Productions

theorem withstands_expressionWithin (depth : Nat) (level : Precedence) :
    Withstands (expressionWithin depth level) := by
  induction depth generalizing level with
  | zero => exact withstands_halt _
  | succ depth ih => exact withstands_expressionWith (finds_expressionWithin depth) ih level

/-- A program that is read without errors: some number of closing braces can be added, and as a block's
its statements are followed by the braces beyond that. -/
theorem yields_program_braced :
    Yields program fun p ws _ =>
      ∃ k,
        (∀ m, Reads (statementsUntil expression (· = .rbrace)) (ws ++ braces m) p.statements
          (braces (m - k))) ∧
        ∀ m ≤ k, Reads program (ws ++ braces m) p [] := by
  apply (yields_statements_braced (finds_expressionWithin maxNesting)
    (withstands_expressionWithin maxNesting) []).bind
  intro body
  apply Yields.pure
  rintro _ ws ⟨k, hblock, hprogram⟩
  refine ⟨k, hblock, fun m hm => ?_⟩
  exact (hprogram m hm).bind (Reads.pure _ _)

end Parser

end Scriptlet
