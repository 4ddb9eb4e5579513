import Scriptlet.Parser.Grammar
import Scriptlet.Proofs.Parser.Derivation
import Scriptlet.Proofs.Parser.Reading

/-!
# Soundness of the parser

A text that is read without errors is a derivation of the program it was read as.

**Method.**  Every production is shown to have recorded an error or to have read a derivation of what
it yields (`Finds`).  A production stops on the last word of its phrase, so what comes after the phrase
is the tail of the words that are left; a block that the end of the text closes leaves no words, and
the tail of those is empty as well.  The loops keep what was read so far: `Yields.iterate` turns what
one round keeps into what the loop comes to.

**Result.**  `derives_of_parse`.
-/

namespace Scriptlet

namespace Parser

open Step

/-- Whenever the step yields without a new error, it yields something, and the words up to where it
stops are a derivation of that. -/
def Finds {α : Type} (x : Step (Option α)) (φ : α → Phrase) : Prop :=
  Yields x fun r ws ws' => ∃ a, r = some a ∧ Derives (φ a) ws ws'.tail

/-- The same for a step that is started on a word of one kind only. -/
def FindsAt {α : Type} (kind : TokenKind) (x : Step (Option α)) (φ : α → Phrase) : Prop :=
  Yields x fun r ws ws' =>
    kindAhead ws = kind → ∃ a, r = some a ∧ Derives (φ a) ws ws'.tail

/-- A step that goes on in one way with what was found and in another way with nothing. -/
theorem Finds.cases {α β : Type} {x : Step (Option α)} {φ : α → Phrase} {f : Option α → Step β}
    {R : β → List Word → List Word → Prop} (hx : Finds x φ)
    (hnone : Yields (f none) fun _ _ _ => True)
    (hsome : ∀ a, Yields (f (some a)) fun b ws' ws'' =>
      ∀ ws, Derives (φ a) ws ws'.tail → R b ws ws'') :
    Yields (x >>= f) R := by
  apply Yields.bind hx
  intro r
  cases r with
  | none =>
      apply hnone.mono
      rintro b ws' ws'' _ ws ⟨a, ha, _⟩
      cases ha
  | some a =>
      apply (hsome a).mono
      rintro b ws' ws'' h ws ⟨a', ha, hder⟩
      cases ha
      exact h ws hder

theorem Word.eq_of_kind {w : Word} {kind : TokenKind} (h : w.kind = kind) :
    w = ⟨kind, w.text⟩ := by
  rw [← h]

/-- The kind ahead says what the first word is. -/
theorem exists_of_kindAhead {ws : List Word} {kind : TokenKind} (h : kindAhead ws = kind)
    (hk : kind ≠ .eof) : ∃ text, ws = ⟨kind, text⟩ :: ws.tail := by
  cases ws with
  | nil => exact absurd h.symm hk
  | cons w rest =>
      rw [kindAhead_cons] at h
      refine ⟨w.text, ?_⟩
      rw [List.tail_cons, ← Word.eq_of_kind h]

theorem Shows.kindAhead_eq {t : Token} {ws : List Word} (h : Shows t ws) :
    kindAhead ws = t.kind := by
  cases ws with
  | nil => exact h.symm
  | cons w rest => rw [kindAhead_cons, ← h.2, Token.kind_word]

/-- A production that starts on words of one kind is started on a token of that kind. -/
theorem FindsAt.of_shows {α : Type} {kind : TokenKind} {x : Step (Option α)} {φ : α → Phrase}
    {token : Token} (hx : FindsAt kind x φ) (hk : token.kind = kind) :
    Yields x fun r ws ws' => Shows token ws → ∃ a, r = some a ∧ Derives (φ a) ws ws'.tail := by
  apply hx.mono
  intro r ws ws' h hshows
  exact h (by rw [hshows.kindAhead_eq, hk])

theorem yields_skipSemicolon : Yields skipSemicolon fun _ ws ws' => Ended ws.tail ws'.tail := by
  unfold skipSemicolon
  apply Yields.ifPeek
  · apply yields_advance.mono
    rintro _ ws ws' rfl hk
    exact Or.inr (exists_of_kindAhead hk (by decide))
  · apply Yields.pure
    intro ws _
    exact Or.inl rfl

theorem eq_ok_of_toOption {ε α : Type} {x : Except ε α} {a : α} (h : x.toOption = some a) :
    x = .ok a := by
  cases x with
  | error e => cases h
  | ok b =>
      cases h
      rfl

section Statements

variable {expression : Reader} (hexpr : ∀ level, Finds (expression level) .expression)
include hexpr

theorem findsAt_letStatement : FindsAt .letWord (letStatement expression) .statement := by
  unfold letStatement
  apply Yields.ifExpect (by decide)
  · apply Yields.current
    intro name
    apply Yields.ifExpect (by decide)
    · apply yields_advance.bind
      rintro ⟨⟩
      apply (hexpr .lowest).bind
      intro value
      apply yields_skipSemicolon.bind
      rintro ⟨⟩
      apply Yields.pure
      rintro ws₂ ws₁ hend _ ⟨e, rfl, he⟩ _ rfl w equalsText after rfl hname first nameText rest hw
        hlet
      obtain ⟨rfl, -⟩ := List.cons.inj hw
      have htext : name.text = nameText := congrArg Word.text hname.2
      have hfirst := Word.eq_of_kind hlet
      refine ⟨.bind name.text e, rfl, ?_⟩
      rw [hfirst, htext]
      exact .bind he hend
    · exact Yields.pure fun _ => trivial
  · exact Yields.pure fun _ => trivial

theorem findsAt_returnStatement :
    FindsAt .returnWord (returnStatement expression) .statement := by
  unfold returnStatement
  apply yields_advance.bind
  rintro ⟨⟩
  apply (hexpr .lowest).bind
  intro value
  apply yields_skipSemicolon.bind
  rintro ⟨⟩
  apply Yields.pure
  rintro ws₂ ws₁ hend _ ⟨e, rfl, he⟩ ws rfl hret
  obtain ⟨returnText, hws⟩ := exists_of_kindAhead hret (by decide)
  refine ⟨.ret e, rfl, ?_⟩
  rw [hws]
  exact .ret he hend

theorem finds_expressionStatement : Finds (expressionStatement expression) .statement := by
  unfold expressionStatement
  apply (hexpr .lowest).bind
  intro value
  apply yields_skipSemicolon.bind
  rintro ⟨⟩
  apply Yields.pure
  rintro ws₂ ws₁ hend ws ⟨e, rfl, he⟩
  exact ⟨.expr e, rfl, .expr he hend⟩

theorem finds_statementWith : Finds (statementWith expression) .statement := by
  unfold statementWith
  apply Yields.current
  intro token
  -- the kind of the current token chooses the production, which starts on that token
  split
  · next hk => exact (findsAt_letStatement hexpr).of_shows hk
  · next hk => exact (findsAt_returnStatement hexpr).of_shows hk
  · apply (finds_expressionStatement hexpr).mono
    intro r ws ws' h _
    exact h

/-- Statements up to a word that ends them or up to the end of the words, in a loop that keeps those
read so far. -/
theorem yields_statementsUntil (ends : TokenKind → Bool) :
    Yields (statementsUntil expression ends) fun body ws ws' =>
      Derives (.statements body) ws ws' ∧ (ws' = [] ∨ ends (kindAhead ws') = true) := by
  have loop : ∀ read : Block,
      Yields (iterate (statementRound expression ends)
          (statementRound_shrinks expression ends) read) fun body ws ws' =>
        ∃ more, body = read ++ more ∧
          Derives (.statements more) ws ws' ∧ (ws' = [] ∨ ends (kindAhead ws') = true) := by
    apply Yields.iterate
    intro read
    unfold statementRound
    apply Yields.current
    intro token
    split
    · next hends =>
        apply Yields.pure
        intro ws hshows
        refine ⟨[], (List.append_nil read).symm, .done, ?_⟩
        rcases Bool.or_eq_true _ _ ▸ hends with heof | hend
        · cases ws with
          | nil => exact Or.inl rfl
          | cons w rest => exact absurd (of_decide_eq_true heof) hshows.1
        · rw [hshows.kindAhead_eq]
          exact Or.inr hend
    · apply (finds_statementWith hexpr).bind
      intro r
      apply yields_advance.bind
      rintro ⟨⟩
      apply Yields.pure
      rintro _ ws₁ rfl ws ⟨s, rfl, hs⟩ _ body ws₂ ⟨more, rfl, hmore, hend⟩
      refine ⟨s :: more, ?_, .more hs hmore, hend⟩
      simp
  apply (loop []).mono
  rintro body ws ws' ⟨more, rfl, h⟩
  exact h

theorem yields_blockWith :
    Yields (blockWith expression) fun body ws ws' =>
      kindAhead ws = .lbrace → Derives (.block body) ws ws'.tail := by
  unfold blockWith
  apply yields_advance.bind
  rintro ⟨⟩
  apply (yields_statementsUntil hexpr _).mono
  rintro body _ ws' ⟨hbody, hend⟩ ws rfl hopen
  obtain ⟨openText, hws⟩ := exists_of_kindAhead hopen (by decide)
  rw [hws]
  rcases hend with rfl | hclose
  · exact .unclosed hbody
  · obtain ⟨closeText, hws'⟩ := exists_of_kindAhead (of_decide_eq_true hclose) (by decide)
    rw [hws'] at hbody
    exact .closed hbody

end Statements

section Lists

variable {expression : Reader} (hexpr : ∀ level, Finds (expression level) .expression)
include hexpr

/-- The rest of a list after one of its expressions, up to the closing word. -/
theorem yields_expressionRounds {close : TokenKind} (hclose : close ≠ .eof) (read : List Expr) :
    Yields (iterate (expressionRound expression close)
        (expressionRound_shrinks expression close) read) fun r ws ws' =>
      ∃ more, r = some (read ++ more) ∧
        ∀ e start, Derives (.expression e) start ws.tail →
          ∃ text, Derives (.expressions (e :: more)) start (⟨close, text⟩ :: ws'.tail) := by
  revert read
  apply Yields.iterate
  intro read
  unfold expressionRound
  apply Yields.ifPeek
  · apply yields_advance.bind
    rintro ⟨⟩
    apply yields_advance.bind
    rintro ⟨⟩
    apply (hexpr .lowest).cases
    · exact Yields.pure fun _ => trivial
    · intro e
      apply Yields.pure
      rintro ws₁ _ he _ rfl ws rfl hcomma r ws₂ ⟨more, rfl, hmore⟩
      obtain ⟨commaText, hws⟩ := exists_of_kindAhead hcomma (by decide)
      obtain ⟨text, hes⟩ := hmore e ws.tail.tail he
      refine ⟨e :: more, by simp, ?_⟩
      intro e' start he'
      rw [hws] at he'
      exact ⟨text, .moreExpressions he' hes⟩
  · apply Yields.ifExpect hclose
    · apply Yields.pure
      rintro _ w text rest rfl _
      refine ⟨[], by simp, ?_⟩
      intro e start he
      exact ⟨text, .lastExpression he⟩
    · exact Yields.pure fun _ => trivial

/-- A list in brackets, seen from its opening word. -/
theorem yields_expressionListWith {close : TokenKind} (hclose : close ≠ .eof) :
    Yields (expressionListWith expression close) fun r ws ws' =>
      ∃ es text, r = some es ∧
        (es = [] ∧ ws.tail = ⟨close, text⟩ :: ws'.tail ∨
          Derives (.expressions es) ws.tail (⟨close, text⟩ :: ws'.tail)) := by
  unfold expressionListWith
  apply Yields.ifPeek
  · apply yields_advance.bind
    rintro ⟨⟩
    apply Yields.pure
    rintro _ ws rfl hk
    obtain ⟨text, hws⟩ := exists_of_kindAhead hk hclose
    exact ⟨[], text, rfl, Or.inl ⟨rfl, hws⟩⟩
  · apply yields_advance.bind
    rintro ⟨⟩
    apply (hexpr .lowest).cases
    · exact Yields.pure fun _ => trivial
    · intro e
      apply (yields_expressionRounds hexpr hclose [e]).mono
      rintro r ws₁ ws₂ ⟨more, rfl, hmore⟩ _ he ws rfl _
      obtain ⟨text, hes⟩ := hmore e ws.tail he
      exact ⟨e :: more, text, rfl, Or.inr hes⟩

end Lists

/-- The parameters after one of them, up to the closing parenthesis. -/
theorem yields_parameterRounds (read : List String) :
    Yields (iterate parameterRound parameterRound_shrinks read) fun r ws ws' =>
      ∃ more, r = some (read ++ more) ∧
        ∀ name, ∃ text, Derives (.parameters (name :: more)) (⟨.ident, name⟩ :: ws.tail)
          (⟨.rparen, text⟩ :: ws'.tail) := by
  revert read
  apply Yields.iterate
  intro read
  unfold parameterRound
  apply Yields.ifPeek
  · apply yields_advance.bind
    rintro ⟨⟩
    apply Yields.ifExpect (by decide)
    · apply Yields.current
      intro name
      apply Yields.pure
      rintro _ hname w nameText rest rfl ws hws hcomma r ws₂ ⟨more, rfl, hmore⟩
      have htext : name.text = nameText := congrArg Word.text hname.2
      have hw : w.kind = .comma := by
        rw [← hws] at hcomma
        exact hcomma
      obtain ⟨text, hps⟩ := hmore nameText
      refine ⟨name.text :: more, by simp, ?_⟩
      intro first
      refine ⟨text, ?_⟩
      rw [← hws, Word.eq_of_kind hw, htext]
      exact .moreParameters hps
    · exact Yields.pure fun _ => trivial
  · apply Yields.ifExpect (by decide)
    · apply Yields.pure
      rintro _ w text rest rfl _
      refine ⟨[], by simp, ?_⟩
      intro name
      exact ⟨text, .lastParameter⟩
    · exact Yields.pure fun _ => trivial

theorem yields_parameters :
    Yields parameters fun r ws ws' =>
      ∃ names text, r = some names ∧
        (names = [] ∧ ws.tail = ⟨.rparen, text⟩ :: ws'.tail ∨
          Derives (.parameters names) ws.tail (⟨.rparen, text⟩ :: ws'.tail)) := by
  unfold parameters
  apply Yields.ifPeek
  · apply yields_advance.bind
    rintro ⟨⟩
    apply Yields.pure
    rintro _ ws rfl hk
    obtain ⟨text, hws⟩ := exists_of_kindAhead hk (by decide)
    exact ⟨[], text, rfl, Or.inl ⟨rfl, hws⟩⟩
  · apply Yields.ifExpect (by decide)
    · apply Yields.current
      intro name
      apply (yields_parameterRounds [name.text]).mono
      rintro r _ ws' ⟨more, rfl, hmore⟩ hname w nameText rest rfl _
      have htext : name.text = nameText := congrArg Word.text hname.2
      obtain ⟨text, hps⟩ := hmore nameText
      rw [htext]
      exact ⟨nameText :: more, text, rfl, Or.inr hps⟩
    · exact Yields.pure fun _ => trivial

theorem yields_integerLiteral (numeral : String) :
    Yields (integerLiteral numeral) fun r ws ws' =>
      ∀ rest, ws = ⟨.int, numeral⟩ :: rest →
        ∃ e, r = some e ∧ Derives (.expression e) ws ws'.tail := by
  unfold integerLiteral
  split
  · exact yields_halt _
  · dsimp only
    split
    · apply (yields_report _).bind
      rintro ⟨⟩
      apply Yields.pure
      intro ws ws₀ hfalse
      exact hfalse.elim
    · next hle =>
        apply Yields.pure
        rintro _ rest rfl
        exact ⟨_, rfl, .integer (Int.not_lt.mp hle)⟩

section Expressions

variable {expression : Reader} (hexpr : ∀ level, Finds (expression level) .expression)
include hexpr

theorem yields_unary :
    Yields (unary expression) fun r ws ws' =>
      kindAhead ws = .bang ∨ kindAhead ws = .minus →
        ∃ e, r = some e ∧ Derives (.expression e) ws ws'.tail := by
  unfold unary
  apply Yields.current
  intro op
  apply yields_advance.bind
  rintro ⟨⟩
  apply (hexpr .unary).bind
  intro right
  apply Yields.pure
  rintro ws₁ _ ⟨e, rfl, he⟩ ws rfl hop hkind
  cases ws with
  | nil => rcases hkind with hk | hk <;> cases hk
  | cons w rest =>
      obtain ⟨-, rfl⟩ := hop
      exact ⟨.unary op.text e, rfl, .unary hkind he⟩

theorem findsAt_grouped : FindsAt .lparen (grouped expression) .expression := by
  unfold grouped
  apply yields_advance.bind
  rintro ⟨⟩
  apply (hexpr .lowest).bind
  intro r
  apply Yields.ifExpect (by decide)
  · apply Yields.pure
    rintro _ w closeText rest rfl _ ⟨e, rfl, he⟩ ws rfl hopen
    obtain ⟨openText, hws⟩ := exists_of_kindAhead hopen (by decide)
    refine ⟨e, rfl, ?_⟩
    rw [hws]
    exact .grouped he
  · exact Yields.pure fun _ => trivial

theorem yields_branches (condition : Option Expr) :
    Yields (branches expression condition) fun r ws ws' =>
      ∀ c, condition = some c → kindAhead ws = .lbrace →
        ∃ body, r = some (.conditional c body none) ∧ Derives (.block body) ws ws'.tail ∨
          ∃ other elseText after, r = some (.conditional c body (some other)) ∧
            Derives (.block body) ws (⟨.elseWord, elseText⟩ :: after) ∧
            Derives (.block other) after ws'.tail := by
  unfold branches
  apply (yields_blockWith hexpr).bind
  intro body
  apply Yields.ifPeek
  · apply yields_advance.bind
    rintro ⟨⟩
    apply Yields.ifExpect (by decide)
    · apply (yields_blockWith hexpr).bind
      intro other
      apply Yields.pure
      rintro ws₃ _ hother w openText rest rfl ws₁ hws helse ws hbody c rfl hopen
      have hw : w.kind = .elseWord := by
        rw [← hws] at helse
        exact helse
      have hbody' := hbody hopen
      rw [← hws, Word.eq_of_kind hw] at hbody'
      exact ⟨body, Or.inr ⟨other, w.text, _, rfl, hbody', hother rfl⟩⟩
    · exact Yields.pure fun _ => trivial
  · apply Yields.pure
    rintro ws₁ _ ws hbody c rfl hopen
    exact ⟨body, Or.inl ⟨rfl, hbody hopen⟩⟩

theorem findsAt_conditional : FindsAt .ifWord (conditional expression) .expression := by
  unfold conditional
  apply Yields.ifExpect (by decide)
  · apply yields_advance.bind
    rintro ⟨⟩
    apply (hexpr .lowest).bind
    intro condition
    apply Yields.ifExpect (by decide)
    · apply Yields.ifExpect (by decide)
      · apply (yields_branches hexpr condition).mono
        rintro r _ ws' hbranches w₃ braceText after rfl w₂ closeText mid hclose _ ⟨c, rfl, hc⟩ _ rfl
          w openText rest rfl hif
        obtain ⟨rfl, rfl⟩ := List.cons.inj hclose
        rw [Word.eq_of_kind hif]
        obtain ⟨body, ⟨rfl, hbody⟩ | ⟨other, elseText, after', rfl, hbody, hother⟩⟩ :=
          hbranches c rfl rfl
        · exact ⟨_, rfl, .conditional hc hbody⟩
        · exact ⟨_, rfl, .alternative hc hbody hother⟩
      · exact Yields.pure fun _ => trivial
    · exact Yields.pure fun _ => trivial
  · exact Yields.pure fun _ => trivial

theorem findsAt_functionLiteral :
    FindsAt .functionWord (functionLiteral expression) .expression := by
  unfold functionLiteral
  apply Yields.ifExpect (by decide)
  · apply yields_parameters.bind
    intro names
    cases names with
    | none =>
        apply Yields.pure
        rintro ws₁ _ ⟨names, _, hnone, _⟩
        cases hnone
    | some names =>
        apply Yields.ifExpect (by decide)
        · apply (yields_blockWith hexpr).bind
          intro body
          apply Yields.pure
          rintro ws₃ _ hbody w₂ braceText after rfl _ ⟨_, closeText, hnames, hps⟩ w openText rest
            rfl hfn
          cases hnames
          rw [Word.eq_of_kind hfn]
          refine ⟨.function names body, rfl, ?_⟩
          rcases hps with ⟨rfl, htail⟩ | hps
          · rw [List.tail_cons] at htail
            subst htail
            exact .constant (hbody rfl)
          · exact .function hps (hbody rfl)
        · exact Yields.pure fun _ => trivial
  · exact Yields.pure fun _ => trivial

theorem findsAt_arrayLiteral : FindsAt .lbracket (arrayLiteral expression) .expression := by
  unfold arrayLiteral
  apply (yields_expressionListWith hexpr (by decide)).bind
  intro r
  apply Yields.pure
  rintro ws₁ ws ⟨es, closeText, rfl, hes⟩ hopen
  obtain ⟨openText, hws⟩ := exists_of_kindAhead hopen (by decide)
  refine ⟨.array es, rfl, ?_⟩
  rw [hws]
  rcases hes with ⟨rfl, htail⟩ | hes
  · rw [htail]
    exact .emptyArray
  · exact .array hes

/-- The pairs still to come, put into the table of those read so far.  In front of a closing brace
there are none. -/
theorem yields_pairRounds (read : List (Expr × Expr)) :
    Yields (iterate (pairRound expression) (pairRound_shrinks expression) read) fun r ws ws' =>
      ∃ ps text, r = some (.hash (mergedPairs read ps)) ∧
        Derives (.pairs ps) ws.tail (⟨.rbrace, text⟩ :: ws'.tail) ∧
        (kindAhead ws.tail = .rbrace → ps = []) := by
  revert read
  apply Yields.iterate
  intro read
  unfold pairRound
  apply Yields.ifPeek
  · apply yields_advance.bind
    rintro ⟨⟩
    apply Yields.pure
    rintro _ ws rfl hclose
    obtain ⟨text, hws⟩ := exists_of_kindAhead hclose (by decide)
    refine ⟨[], text, rfl, ?_, fun _ => rfl⟩
    rw [← hws]
    exact .noPairs
  · apply yields_advance.bind
    rintro ⟨⟩
    apply (hexpr .lowest).bind
    intro key
    apply Yields.ifExpect (by decide)
    · apply yields_advance.bind
      rintro ⟨⟩
      apply (hexpr .lowest).bind
      intro value
      cases key with
      | none =>
          apply Yields.pure
          rintro ws₄ ws₃ _ ws₂ _ w colonText after _ ws₁ ⟨k, hk, _⟩
          cases hk
      | some k =>
          cases value with
          | none =>
              apply Yields.pure
              rintro ws₄ ws₃ ⟨v, hv, _⟩
              cases hv
          | some v =>
              apply Yields.ifPeek
              · apply Yields.pure
                rintro ws₄ hclose _ ⟨_, ⟨⟩, hv⟩ _ rfl w colonText after rfl _ ⟨_, ⟨⟩, hk⟩ ws rfl
                  hne r ws' ⟨ps, text, rfl, hps, hnone⟩
                -- a closing brace is next, so this pair is the last
                obtain rfl := hnone hclose
                refine ⟨[(k, v)], text, rfl, ?_, fun h => absurd h hne⟩
                generalize ⟨.rbrace, text⟩ :: ws'.tail = rest at hps
                cases hps
                exact .lastPair hk hv
              · apply Yields.ifExpect (by decide)
                · apply Yields.pure
                  rintro _ w₄ commaText next rfl _ _ ⟨_, ⟨⟩, hv⟩ _ rfl w colonText after rfl _
                    ⟨_, ⟨⟩, hk⟩ ws rfl hne r ws' ⟨ps, text, rfl, hps, _⟩
                  exact ⟨(k, v) :: ps, text, rfl, .morePairs hk hv hps, fun h => absurd h hne⟩
                · exact Yields.pure fun _ => trivial
    · exact Yields.pure fun _ => trivial

theorem findsAt_hashLiteral : FindsAt .lbrace (hashLiteral expression) .expression := by
  unfold hashLiteral
  apply (yields_pairRounds hexpr []).mono
  rintro r ws ws' ⟨ps, closeText, rfl, hps, -⟩ hopen
  obtain ⟨openText, hws⟩ := exists_of_kindAhead hopen (by decide)
  refine ⟨.hash (mergedPairs [] ps), rfl, ?_⟩
  rw [hws]
  exact .hash hps

theorem finds_operand : Finds (operand expression) .expression := by
  unfold operand
  apply Yields.current
  intro token
  -- a token of a known kind that is not the end token is the first word
  have hword : ∀ {kind : TokenKind} {ws : List Word}, kind ≠ .eof → token.kind = kind →
      Shows token ws → ws = ⟨kind, token.text⟩ :: ws.tail := by
    rintro kind ws hk rfl hshows
    cases ws with
    | nil => exact absurd hshows hk
    | cons w rest =>
        obtain ⟨-, rfl⟩ := hshows
        rfl
  split
  · next hk =>
      apply Yields.pure
      intro ws hshows
      refine ⟨.ident token.text, rfl, ?_⟩
      rw [hword (by decide) hk hshows]
      exact .ident
  · next hk =>
      apply (yields_integerLiteral token.text).mono
      intro r ws ws' h hshows
      exact h ws.tail (hword (by decide) hk hshows)
  · next hk =>
      apply Yields.pure
      intro ws hshows
      refine ⟨.string token.text, rfl, ?_⟩
      rw [hword (by decide) hk hshows]
      exact .string
  · next hk =>
      apply Yields.pure
      intro ws hshows
      refine ⟨.boolean true, rfl, ?_⟩
      rw [hword (by decide) hk hshows]
      exact .true
  · next hk =>
      apply Yields.pure
      intro ws hshows
      refine ⟨.boolean false, rfl, ?_⟩
      rw [hword (by decide) hk hshows]
      exact .false
  · next hk =>
      apply (yields_unary hexpr).mono
      intro r ws ws' h hshows
      exact h (Or.inl (by rw [hshows.kindAhead_eq, hk]))
  · next hk =>
      apply (yields_unary hexpr).mono
      intro r ws ws' h hshows
      exact h (Or.inr (by rw [hshows.kindAhead_eq, hk]))
  · next hk => exact (findsAt_grouped hexpr).of_shows hk
  · next hk => exact (findsAt_conditional hexpr).of_shows hk
  · next hk => exact (findsAt_functionLiteral hexpr).of_shows hk
  · next hk => exact (findsAt_arrayLiteral hexpr).of_shows hk
  · next hk => exact (findsAt_hashLiteral hexpr).of_shows hk
  · apply (yields_report _).bind
    rintro ⟨⟩
    apply Yields.pure
    intro ws ws₀ hfalse
    exact hfalse.elim

/-- What continues an expression makes a longer expression of it, wherever that one started. -/
theorem yields_suffix (left : Expr) (way : Suffix) :
    Yields (suffix expression left way) fun r ws ws' =>
      ∀ start, (kindAhead ws).suffix? = some way → Derives (.expression left) start ws →
        ∃ e, r = some e ∧ Derives (.expression e) start ws'.tail := by
  cases way with
  | operator =>
      apply Yields.current
      intro op
      apply yields_advance.bind
      rintro ⟨⟩
      apply (hexpr _).bind
      intro right
      apply Yields.pure
      rintro ws₁ _ ⟨e, rfl, he⟩ ws rfl hop start hway hleft
      cases ws with
      | nil => cases hway
      | cons w rest =>
          obtain ⟨-, rfl⟩ := hop
          have hbinary : isBinaryOperator op.kind = true := by
            rw [kindAhead_cons, Token.kind_word] at hway
            unfold TokenKind.suffix? at hway
            split at hway <;> simp_all [isBinaryOperator]
          exact ⟨.binary left op.text e, rfl, .binary hleft hbinary he⟩
  | call =>
      apply (yields_expressionListWith hexpr (by decide)).bind
      intro r
      apply Yields.pure
      rintro ws₁ ws ⟨es, closeText, rfl, hes⟩ start hway hleft
      have hopen : kindAhead ws = .lparen := by
        unfold TokenKind.suffix? at hway
        split at hway <;> simp_all
      obtain ⟨openText, hws⟩ := exists_of_kindAhead hopen (by decide)
      rw [hws] at hleft
      refine ⟨.call left es, rfl, ?_⟩
      rcases hes with ⟨rfl, htail⟩ | hes
      · rw [htail] at hleft
        exact .emptyCall hleft
      · exact .call hleft hes
  | index =>
      apply yields_advance.bind
      rintro ⟨⟩
      apply (hexpr .lowest).bind
      intro subscript
      apply Yields.ifExpect (by decide)
      · apply Yields.pure
        rintro _ w closeText rest rfl _ ⟨e, rfl, he⟩ ws rfl start hway hleft
        have hopen : kindAhead ws = .lbracket := by
          unfold TokenKind.suffix? at hway
          split at hway <;> simp_all
        obtain ⟨openText, hws⟩ := exists_of_kindAhead hopen (by decide)
        rw [hws] at hleft
        exact ⟨.index left e, rfl, .index hleft he⟩
      · exact Yields.pure fun _ => trivial

theorem yields_suffixRounds (level : Precedence) (left : Expr) :
    Yields (iterate (suffixRound expression level) (suffixRound_shrinks expression level) left)
      fun r ws ws' =>
        ∀ start, Derives (.expression left) start ws.tail →
          ∃ e, r = some e ∧ Derives (.expression e) start ws'.tail := by
  revert left
  apply Yields.iterate
  intro left
  unfold suffixRound
  apply yields_peekKind.bind
  intro kind
  split
  · split
    · apply Yields.pure
      rintro ws _ ⟨rfl, -⟩ start hleft
      exact ⟨left, rfl, hleft⟩
    · next way hway =>
        apply yields_advance.bind
        rintro ⟨⟩
        apply (yields_suffix hexpr left way).bind
        intro r
        cases r with
        | none =>
            apply Yields.pure
            rintro ws₂ _ hsuffix ws₁ rfl _ ⟨rfl, hk⟩ start hleft
            exact hsuffix start (by rw [← hk, hway]) hleft
        | some e =>
            apply Yields.pure
            rintro ws₂ _ hsuffix ws₁ rfl _ ⟨rfl, hk⟩ r ws' hnext start hleft
            obtain ⟨e', he', hder⟩ := hsuffix start (by rw [← hk, hway]) hleft
            cases he'
            exact hnext start hder
  · apply Yields.pure
    rintro ws _ ⟨rfl, -⟩ start hleft
    exact ⟨left, rfl, hleft⟩

theorem finds_expressionWith (level : Precedence) :
    Finds (expressionWith expression level) .expression := by
  unfold expressionWith
  apply (finds_operand hexpr).cases
  · exact Yields.pure fun _ => trivial
  · intro left
    apply (yields_suffixRounds hexpr level left).mono
    intro r ws₁ ws₂ hrounds ws hleft
    exact hrounds ws hleft

end Expressions

theorem finds_expressionWithin (depth : Nat) (level : Precedence) :
    Finds (expressionWithin depth level) .expression := by
  induction depth generalizing level with
  | zero => exact yields_halt _
  | succ depth ih => exact finds_expressionWith ih level

theorem yields_program :
    Yields program fun p ws _ => Derives (.statements p.statements) ws [] := by
  unfold program programWith
  apply (yields_statementsUntil (finds_expressionWithin maxNesting) _).bind
  intro body
  apply Yields.pure
  rintro ws' ws ⟨hbody, hend⟩
  rcases hend with rfl | hfalse
  · exact hbody
  · cases hfalse

/-- What holds of reading a program holds of the words of a text that is read without errors. -/
theorem Yields.of_parse {R : Program → List Word → List Word → Prop} (hprogram : Yields program R)
    {source : String} {p : Program} (h : parse source = .ok ⟨p, []⟩) :
    ∃ ws, R p (Scanner.ofString source).words ws := by
  unfold parse at h
  rw [State.ofString_eq_reading] at h
  split at h
  · cases h
  · next p' last hrun =>
      obtain ⟨s', more, rfl, hR⟩ := hprogram _ _ _ _ hrun
      cases h
      exact ⟨s'.words, hR rfl⟩

/-- A text that is read without errors is, token by token, a derivation of the program it was read
as: every token but the end token is used once and in order, and none of them is illegal. -/
theorem derives_of_parse {source : String} {p : Program} (h : parse source = .ok ⟨p, []⟩) :
    Derives (.statements p.statements)
        (((tokenize source).filter fun t => t.kind ≠ .eof).map Token.word) [] ∧
      ∀ t ∈ tokenize source, t.kind ≠ .illegal := by
  have hder : Derives (.statements p.statements) (Scanner.ofString source).words [] := by
    unfold parse at h
    rw [State.ofString_eq_reading] at h
    split at h
    · cases h
    · next p' last hrun =>
        obtain ⟨s', more, rfl, hp⟩ := yields_program _ _ _ _ hrun
        cases h
        exact hp rfl
  refine ⟨hder, ?_⟩
  intro t ht hillegal
  obtain ⟨used, hused, hlegal⟩ := hder.uses
  rw [List.append_nil] at hused
  refine hlegal t.word ?_ hillegal
  rw [← hused]
  apply List.mem_map_of_mem
  apply List.mem_filter.mpr
  refine ⟨ht, ?_⟩
  rw [hillegal]
  decide

/-- Two blocks that only the end of the text closes, a repeated key and a comma after the last
pair. -/
theorem derives_of_parse_unclosed :
    let source := "let f = fn(a, b) \x7b if (a < b) \x7b return \x7b1: a, 1: [b],\x7d[f(-a)]"
    let p : Program :=
      ⟨[.bind "f" (.function ["a", "b"] [.expr (.conditional (.binary (.ident "a") "<" (.ident "b"))
        [.ret (.index (.hash [(.integer 1, .array [.ident "b"])])
          (.call (.ident "f") [.unary "-" (.ident "a")]))] none)])]⟩
    parse source = .ok ⟨p, []⟩ ∧
      Derives (.statements p.statements)
        (((tokenize source).filter fun t => t.kind ≠ .eof).map Token.word) [] ∧
      ∀ t ∈ tokenize source, t.kind ≠ .illegal := by
  intro source p
  have h : parse source = .ok ⟨p, []⟩ := eq_ok_of_toOption (by decide +kernel)
  exact ⟨h, derives_of_parse h⟩

end Parser

end Scriptlet
