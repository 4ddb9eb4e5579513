import Scriptlet.Proofs.Parser.Building
import Scriptlet.Proofs.Parser.Closing

/-!
# Reading what goes on

How a text is read when more comes after it, whatever that is.

**Nearsighted steps** look at the word where they stop and at the one after it, and at nothing further.
So if two words are left before some point, what comes after that point may be replaced (`Leaves`).
Every step that is built from primitive ones is nearsighted (`Built.nearsighted`).

**The last statement** stops on its semicolon, with no second word left.  It does not look beyond the
semicolon, for that was the next word when the expression before it ended (`Stops`); and no expression
ends in a semicolon itself (`tight_of_derives`).

**Result.**  `yields_statements_reached`: where statements that end in a semicolon are read without errors
up to some word, they are read so whatever comes in place of that word and of those after it.
-/

namespace Scriptlet

namespace Parser

open Step

variable {α β σ : Type}

section Nearsighted

/-- From the words `ws` the step has left `ws'`.  If two of those are left, it does the same with any
words after the two. -/
def Leaves (x : Step α) (a : α) (ws ws' : List Word) : Prop :=
  ∃ used, ws = used ++ ws' ∧
    ∀ kept rest, ws' = kept ++ rest → 2 ≤ kept.length →
      ∀ more, Reads x (used ++ (kept ++ more)) a (kept ++ more)

/-- Whenever the step yields without a new error, it has looked no further than one word beyond the one
it stops on. -/
def Nearsighted (x : Step α) : Prop :=
  Yields x (Leaves x)

theorem Leaves.bind {x : Step α} {f : α → Step β} {a : α} {b : β} {ws ws' ws'' : List Word}
    (hx : Leaves x a ws ws') (hf : Leaves (f a) b ws' ws'') : Leaves (x >>= f) b ws ws'' := by
  obtain ⟨used, rfl, hx⟩ := hx
  obtain ⟨used', rfl, hf⟩ := hf
  refine ⟨used ++ used', (List.append_assoc ..).symm, ?_⟩
  rintro kept rest rfl hkept more
  have hfirst := hx (used' ++ kept) rest (List.append_assoc ..).symm
    (by rw [List.length_append]; omega) more
  rw [List.append_assoc] at hfirst ⊢
  exact hfirst.bind (hf kept rest rfl hkept more)

theorem Leaves.of_not_long {x : Step α} {a : α} {ws : List Word} (h : ws.length < 2) :
    Leaves x a ws ws := by
  refine ⟨[], rfl, ?_⟩
  rintro kept rest rfl hkept
  rw [List.length_append] at h
  omega

theorem nearsighted_advance : Nearsighted advance := by
  apply yields_advance.mono
  rintro _ ws _ rfl
  cases ws with
  | nil => exact Leaves.of_not_long (by simp)
  | cons w rest => exact ⟨[w], rfl, fun _ _ _ _ _ => reads_advance _⟩

theorem nearsighted_peekKind : Nearsighted peekKind := by
  apply yields_peekKind.mono
  rintro kind ws _ ⟨rfl, rfl⟩
  refine ⟨[], rfl, ?_⟩
  rintro kept rest rfl hkept more
  have htail : kept.tail ≠ [] := by
    intro hnil
    have hlength := congrArg List.length hnil
    rw [List.length_tail, List.length_nil] at hlength
    omega
  rw [kindAhead_tail_append htail, ← kindAhead_tail_append htail more]
  exact reads_peekKind _

theorem nearsighted_current {f : Token → Step β} (hword : ∀ t, f t = f ⟨t.kind, t.text, .start⟩)
    (hf : ∀ t, Nearsighted (f t)) : Nearsighted (Step.current >>= f) := by
  apply Yields.current
  intro token
  apply (hf token).mono
  rintro b ws ws' ⟨used, rfl, hreads⟩ hshows
  refine ⟨used, rfl, ?_⟩
  rintro kept rest rfl hkept more
  have hread := hreads kept rest rfl hkept more
  have hne : used ++ kept ≠ [] := by
    intro hnil
    have hlength := congrArg List.length hnil
    rw [List.length_append, List.length_nil] at hlength
    omega
  rw [← List.append_assoc] at hread hshows ⊢
  cases hfirst : used ++ kept with
  | nil => exact absurd hfirst hne
  | cons w others =>
      rw [hfirst] at hread hshows
      apply reads_current_bind
      intro t ht
      have hsame : t.word = token.word := ht.trans hshows.2.symm
      rw [hword t, kind_eq_of_word_eq hsame, text_eq_of_word_eq hsame, ← hword]
      exact hread

theorem nearsighted_iterate {round : σ → Step (Round σ β)} {shrinks : ∀ s, Shrinks (round s)}
    (hround : ∀ state, Nearsighted (round state)) (state : σ) :
    Nearsighted (Step.iterate round shrinks state) := by
  refine Yields.iterate (I := fun state => Leaves (Step.iterate round shrinks state)) ?_ state
  intro state
  apply (hround state).mono
  rintro r ws ws' ⟨used, rfl, hreads⟩
  cases r with
  | done b =>
      refine ⟨used, rfl, ?_⟩
      intro kept rest hrest hkept more
      exact reads_iterate_done (hreads kept rest hrest hkept more)
  | again state' =>
      rintro b ws'' ⟨used', rfl, hnext⟩
      refine ⟨used ++ used', (List.append_assoc ..).symm, ?_⟩
      rintro kept rest rfl hkept more
      have hfirst := hreads (used' ++ kept) rest (List.append_assoc ..).symm
        (by rw [List.length_append]; omega) more
      rw [List.append_assoc] at hfirst ⊢
      exact reads_iterate_again hfirst (hnext kept rest rfl hkept more)

/-- What is built from primitive steps is nearsighted. -/
theorem Built.nearsighted {x : Step α} (h : Built x) : Nearsighted x := by
  induction h with
  | pure a => exact Yields.pure fun ws => ⟨[], rfl, fun _ _ _ _ _ => Reads.pure a _⟩
  | bind _ _ ihx ihf =>
      apply Yields.bind ihx
      intro a
      apply (ihf a).mono
      intro b ws' ws'' hleaves ws hfirst
      exact hfirst.bind hleaves
  | current hword _ ihf => exact nearsighted_current hword ihf
  | peekKind => exact nearsighted_peekKind
  | advance => exact nearsighted_advance
  | report e => exact (yields_report e).mono fun _ _ _ hfalse => hfalse.elim
  | halt fault => exact yields_halt fault
  | iterate _ s ih => exact nearsighted_iterate ih s

end Nearsighted

section Semicolons

/-- Before `rest` stands a word that is no semicolon. -/
def Tight (ws rest : List Word) : Prop :=
  ∃ used w, ws = used ++ w :: rest ∧ w.kind ≠ .semicolon

namespace Tight

variable {ws mid rest : List Word} {φ : Phrase}

theorem one {kind : TokenKind} {text : String} (hkind : kind ≠ .semicolon) (rest : List Word) :
    Tight (⟨kind, text⟩ :: rest) rest :=
  ⟨[], ⟨kind, text⟩, rfl, hkind⟩

theorem cons (w : Word) (h : Tight ws rest) : Tight (w :: ws) rest := by
  obtain ⟨used, last, rfl, hlast⟩ := h
  exact ⟨w :: used, last, rfl, hlast⟩

theorem after (hφ : Derives φ ws mid) (h : Tight mid rest) : Tight ws rest := by
  obtain ⟨used, last, rfl, hlast⟩ := h
  obtain ⟨before, rfl, -⟩ := hφ.uses
  exact ⟨before ++ used, last, (List.append_assoc ..).symm, hlast⟩

end Tight

/-- Whether a phrase is made of statements or pairs: only these may end in a semicolon or be empty. -/
def Phrase.isLoose : Phrase → Bool
  | statements _ => true
  | statement _ => true
  | pairs _ => true
  | _ => false

/-- Nothing but statements ends in a semicolon, unless the end of the words ends a block in it. -/
theorem tight_of_derives {φ : Phrase} {ws rest : List Word} (h : Derives φ ws rest)
    (hφ : φ.isLoose = false) (hrest : rest ≠ []) : Tight ws rest := by
  induction h with
  | done => cases hφ
  | more => cases hφ
  | bind => cases hφ
  | ret => cases hφ
  | expr => cases hφ
  | closed h₁ => exact (Tight.after h₁ (.one (by decide) _)).cons _
  | unclosed => exact absurd rfl hrest
  | ident => exact .one (by decide) _
  | integer => exact .one (by decide) _
  | string => exact .one (by decide) _
  | true => exact .one (by decide) _
  | false => exact .one (by decide) _
  | unary _ _ ih => exact (ih rfl hrest).cons _
  | grouped h₁ => exact (Tight.after h₁ (.one (by decide) _)).cons _
  | conditional h₁ _ _ ih₂ => exact ((Tight.after h₁ ((ih₂ rfl hrest).cons _)).cons _).cons _
  | alternative h₁ h₂ _ _ _ ih₃ =>
      have hother := Tight.after h₂ ((ih₃ rfl hrest).cons _)
      exact ((Tight.after h₁ (hother.cons _)).cons _).cons _
  | constant _ ih => exact (((ih rfl hrest).cons _).cons _).cons _
  | function h₁ _ _ ih₂ => exact ((Tight.after h₁ ((ih₂ rfl hrest).cons _)).cons _).cons _
  | emptyArray => exact (Tight.one (by decide) _).cons _
  | array h₁ => exact (Tight.after h₁ (.one (by decide) _)).cons _
  | hash h₁ => exact (Tight.after h₁ (.one (by decide) _)).cons _
  | binary h₁ _ _ _ ih₂ => exact .after h₁ ((ih₂ rfl hrest).cons _)
  | emptyCall h₁ => exact .after h₁ ((Tight.one (by decide) _).cons _)
  | call h₁ h₂ => exact .after h₁ ((Tight.after h₂ (.one (by decide) _)).cons _)
  | index h₁ h₂ => exact .after h₁ ((Tight.after h₂ (.one (by decide) _)).cons _)
  | lastExpression _ ih => exact ih rfl hrest
  | moreExpressions h₁ _ _ ih₂ => exact .after h₁ ((ih₂ rfl hrest).cons _)
  | lastParameter => exact .one (by decide) _
  | moreParameters _ ih => exact ((ih rfl hrest).cons _).cons _
  | noPairs => cases hφ
  | lastPair => cases hφ
  | morePairs => cases hφ

/-- An expression after which there are words does not stop on a semicolon. -/
theorem yields_tight {x : Step (Option Expr)} (hfinds : Finds x .expression) (hnear : Nearsighted x) :
    Yields x fun _ _ ws' => ws'.tail ≠ [] → kindAhead ws' ≠ .semicolon := by
  apply (hfinds.and hnear).mono
  rintro r ws ws' ⟨⟨e, -, hder⟩, used, rfl, -⟩ htail
  obtain ⟨used', w, hsplit, hw⟩ := tight_of_derives hder rfl htail
  cases ws' with
  | nil => exact absurd rfl htail
  | cons v rest =>
      rw [List.tail_cons] at hsplit
      obtain ⟨-, hlast⟩ := List.append_inj' hsplit rfl
      rw [kindAhead_cons, (List.cons.inj hlast).1]
      exact hw

/-- If the step stops on a semicolon after which there are words, it has moved on to there, and does the
same with any words after that semicolon. -/
def Stops (x : Step α) (a : α) (ws ws' : List Word) : Prop :=
  ∃ used, ws = used ++ ws' ∧
    ∀ w rest, ws' = w :: rest → rest ≠ [] → w.kind = .semicolon →
      used ≠ [] ∧ ∀ more, Reads x (used ++ w :: more) a (w :: more)

/-- Whenever the step yields without a new error and stops on a semicolon, it has not looked further. -/
def Stopping (x : Step α) : Prop :=
  Yields x (Stops x)

theorem Nearsighted.bind_stopping {x : Step α} {f : α → Step β} (hx : Nearsighted x)
    (hf : ∀ a, Stopping (f a)) : Stopping (x >>= f) := by
  apply Yields.bind hx
  intro a
  apply (hf a).mono
  rintro b ws' ws'' ⟨used', rfl, hstops⟩ ws ⟨used, rfl, hreads⟩
  refine ⟨used ++ used', (List.append_assoc ..).symm, ?_⟩
  rintro w rest rfl hrest hw
  obtain ⟨hne, hread⟩ := hstops w rest rfl hrest hw
  refine ⟨List.append_ne_nil_of_right_ne_nil used hne, fun more => ?_⟩
  have hlong : 2 ≤ (used' ++ [w]).length := by
    have hpos := List.length_pos_iff.mpr hne
    rw [List.length_append, List.length_singleton]
    omega
  have hfirst := hreads (used' ++ [w]) rest (by simp) hlong more
  rw [List.append_assoc, List.singleton_append, ← List.append_assoc] at hfirst
  exact hfirst.bind (hread more)

theorem Stopping.ifExpect {x : Step β} {kind : TokenKind} {b : β} (hk : kind ≠ .eof)
    (hx : Stopping x) :
    Stopping (expectPeek kind >>= fun found => if found = true then x else pure b) := by
  refine Yields.ifExpect hk ?_ (Yields.pure fun _ => trivial)
  apply hx.mono
  rintro a ws ws' ⟨used, rfl, hstops⟩ w text rest' hfirst
  refine ⟨w :: used, rfl, ?_⟩
  rintro v rest rfl hrest hv
  obtain ⟨hne, hread⟩ := hstops v rest rfl hrest hv
  refine ⟨List.cons_ne_nil _ _, fun more => ?_⟩
  obtain ⟨first, others, rfl⟩ := List.exists_cons_of_ne_nil hne
  obtain ⟨rfl, -⟩ := List.cons.inj hfirst
  exact (hread more).ifExpect

theorem Stopping.current {f : Token → Step β} (hword : ∀ t t', t.word = t'.word → f t = f t')
    (hf : ∀ t, Stopping (f t)) : Stopping (Step.current >>= f) := by
  apply Yields.current
  intro token
  apply (hf token).mono
  rintro b ws ws' ⟨used, rfl, hstops⟩ hshows
  refine ⟨used, rfl, ?_⟩
  rintro w rest rfl hrest hw
  obtain ⟨hne, hread⟩ := hstops w rest rfl hrest hw
  refine ⟨hne, fun more => ?_⟩
  obtain ⟨first, others, rfl⟩ := List.exists_cons_of_ne_nil hne
  apply reads_current_bind
  intro t ht
  rw [hword t token (ht.trans hshows.2.symm)]
  exact hread more

section Statements

variable {expression : Reader} (hfinds : ∀ level, Finds (expression level) .expression)
  (hnear : ∀ level, Nearsighted (expression level))
include hfinds hnear

/-- The end of every statement: an expression, and a semicolon if there is one. -/
theorem stopping_ended (level : Precedence) (g : Option Expr → β) :
    Stopping (expression level >>= fun value => skipSemicolon >>= fun _ => pure (g value)) := by
  apply ((hnear level).and (yields_tight (hfinds level) (hnear level))).bind
  intro value
  have hskip : Yields skipSemicolon fun _ ws ws' =>
      kindAhead ws.tail = .semicolon ∧ ws' = ws.tail ∨ ws' = ws := by
    apply Yields.ifPeek
    · exact yields_advance.mono fun _ _ _ htail hk => Or.inl ⟨hk, htail⟩
    · exact Yields.pure fun _ _ => Or.inr rfl
  apply hskip.bind
  rintro ⟨⟩
  apply Yields.pure
  rintro ws' ws₁ (⟨hk, rfl⟩ | rfl) ws ⟨⟨used, rfl, hreads⟩, htight⟩
  · cases ws₁ with
    | nil => cases hk
    | cons last ws' =>
        refine ⟨used ++ [last], by simp, ?_⟩
        rintro w rest hw hrest hsemicolon
        rw [List.tail_cons] at hw
        subst hw
        refine ⟨by simp, fun more => ?_⟩
        have hexpression := hreads [last, w] rest rfl (Nat.le_refl 2) more
        rw [List.append_assoc]
        refine hexpression.bind ?_
        rw [Word.eq_of_kind hsemicolon]
        exact reads_skipSemicolon.bind (Reads.pure _ _)
  · refine ⟨used, rfl, ?_⟩
    rintro w rest rfl hrest hw
    exact absurd hw (htight hrest)

theorem stopping_statementWith : Stopping (statementWith expression) := by
  refine Stopping.current ?_ fun token => ?_
  · intro t t' h
    simp only [kind_eq_of_word_eq h]
  · split
    · refine Stopping.ifExpect (by decide) (Stopping.current ?_ fun name => ?_)
      · intro t t' h
        simp only [text_eq_of_word_eq h]
      · refine Stopping.ifExpect (by decide) ?_
        exact nearsighted_advance.bind_stopping fun _ => stopping_ended hfinds hnear _ _
    · exact nearsighted_advance.bind_stopping fun _ => stopping_ended hfinds hnear _ _
    · exact stopping_ended hfinds hnear _ _

end Statements

end Semicolons

section Loops

variable {expression : Reader}

/-- With any words after those used, the statements of a program are read from `read` on up to `body`,
and then the words after them. -/
def Reaches (expression : Reader) (read body : Block) (used : List Word) : Prop :=
  ∀ (more : List Word) (s : Scanner) (errors : List SyntaxError), s.words = used ++ more →
    ∃ s' : Scanner, s'.words = more ∧
      (iterate (statementRound expression fun _ => false)
          (statementRound_shrinks expression fun _ => false) read).run (.reading s errors) =
        (iterate (statementRound expression fun _ => false)
          (statementRound_shrinks expression fun _ => false) body).run (.reading s' errors)

theorem reaches_refl (expression : Reader) (read : Block) : Reaches expression read read [] :=
  fun _ s _ hs => ⟨s, hs, rfl⟩

theorem Reaches.again {read body : Block} (read' : Block) {used later : List Word}
    (hround : ∀ more, Reads (statementRound expression (fun _ => false) read)
      (used ++ (later ++ more)) (.again read') (later ++ more))
    (hlater : Reaches expression read' body later) :
    Reaches expression read body (used ++ later) := by
  intro more s errors hs
  rw [List.append_assoc] at hs
  obtain ⟨t, ht, hrun⟩ := hround more s errors hs
  obtain ⟨u, hu, hrun'⟩ := hlater more t errors ht
  refine ⟨u, hu, ?_⟩
  rw [run_iterate, hrun]
  exact hrun'

variable (hfinds : ∀ level, Finds (expression level) .expression)
  (hnear : ∀ level, Nearsighted (expression level))
  (hstatement : Nearsighted (statementWith expression))
include hfinds hnear hstatement

/-- Statements are read up to a closing brace.  If the last word before it is a semicolon, a program that
starts with the words up to there reads them as the same statements. -/
theorem yields_statements_reached (read : Block) :
    Yields (iterate (statementRound expression (· = .rbrace))
        (statementRound_shrinks expression (· = .rbrace)) read) fun body ws ws' =>
      ∃ used, ws = used ++ ws' ∧
        (ws' ≠ [] → (∀ w ∈ used.getLast?, w.kind = .semicolon) →
          Reaches expression read body used) := by
  revert read
  apply Yields.iterate
  intro read
  apply Yields.current
  intro token
  split
  · exact Yields.pure fun ws _ => ⟨[], rfl, fun _ _ => reaches_refl expression read⟩
  · next hgo =>
      apply (hstatement.and (stopping_statementWith hfinds hnear)).bind
      intro s
      apply yields_advance.bind
      rintro ⟨⟩
      apply Yields.pure
      rintro _ ws₁ rfl ws ⟨⟨used, rfl, hleaves⟩, used', hused', hstops⟩ hshows body ws'
        ⟨later, hlater, hreaches⟩
      cases ws₁ with
      | nil =>
          obtain ⟨rfl, rfl⟩ := List.append_eq_nil_iff.mp hlater.symm
          refine ⟨used, rfl, ?_⟩
          intro hne
          exact absurd rfl hne
      | cons w rest =>
          rw [List.tail_cons] at hlater
          subst hlater
          obtain rfl := List.append_cancel_right hused'
          refine ⟨used ++ [w] ++ later, by simp, ?_⟩
          intro hne hlast
          -- The statement is read whatever comes after the words used: either two of them are left, or
          -- it stops on a semicolon.
          have hread : ∀ more, Reads (statementWith expression) (used ++ w :: (later ++ more)) s
              (w :: (later ++ more)) := by
            intro more
            cases later with
            | nil =>
                have hw : w.kind = .semicolon := hlast w (by simp)
                exact (hstops w ws' rfl hne hw).2 more
            | cons v later => exact hleaves (w :: v :: later) ws' rfl (by simp) more
          refine Reaches.again (read ++ s.toList) ?_ (hreaches hne ?_)
          · intro more
            rw [List.append_assoc, List.singleton_append]
            have hkind : kindAhead (used ++ w :: (later ++ more)) = token.kind := by
              rw [← hshows.kindAhead_eq, ← List.singleton_append, ← List.append_assoc,
                kindAhead_append (by simp), ← kindAhead_append (by simp) (later ++ ws'),
                List.append_assoc, List.singleton_append]
            refine reads_statementRound ?_ rfl ?_
            · rw [hkind]
              intro heof
              rw [heof] at hgo
              exact hgo rfl
            · exact (hread more).bind ((reads_advance _).bind (Reads.pure _ _))
          · intro v hv
            apply hlast v
            rw [List.getLast?_append, hv]
            rfl

end Loops

theorem nearsighted_expressionWithin (depth : Nat) (level : Precedence) :
    Nearsighted (expressionWithin depth level) :=
  (built_expressionWithin depth level).nearsighted

end Parser

end Scriptlet
