import Scriptlet.Parser.Grammar
import Scriptlet.Proofs.Program.WellFormed
import Scriptlet.Proofs.Scanner.Positions

/-!
# What is yielded in spite of errors

A parser that has found an error goes on, and what it yields in the end is partial.  It is well-formed
all the same: no production yields a phrase that could not be written down.

**Words.**  The words of a scanner are *genuine*: an identifier is a name, a string has no quote in it,
and an operator is spelled as one.

**The judgement.**  `Ensures pre x post`: from a state with genuine words and `pre`, whatever the step
`x` yields satisfies `post` with the state after it, whose words are genuine again.  Nothing is asked of
the errors.  `Gives x Q` is the form for steps that start anywhere.

**Result.**  `wellFormed_of_parse`: every program that is read, with errors or without, is well-formed.
-/

namespace Scriptlet

section Words

/-- The word is spelled as its kind demands. -/
structure Word.Genuine (w : Word) : Prop where
  name : w.kind = .ident → isName w.text = true
  string : w.kind = .string → '"' ∉ w.text.toList
  unary : w.kind = .bang ∨ w.kind = .minus → w.text ∈ unaryOperators
  binary : w.kind.suffix? = some .operator → w.text ∈ binaryOperators

theorem Word.genuine_quoted (rest : List Char) :
    Word.Genuine ⟨(Lexeme.quoted rest).kind, String.ofList (Lexeme.quoted rest).text⟩ := by
  simp only [Lexeme.quoted]
  split
  · refine ⟨by simp, fun _ hquote => ?_, by simp, by simp [TokenKind.suffix?]⟩
    rw [String.toList_ofList] at hquote
    exact absurd (List.all_eq_true.mp List.all_takeWhile _ hquote) (by decide)
  · exact ⟨by simp, by simp, by simp, by simp [TokenKind.suffix?]⟩

theorem TokenKind.ofWord_cases (text : String) :
    ofWord text = .ident ∨ (ofWord text).isReserved = true := by
  unfold ofWord
  split
  all_goals decide

theorem TokenKind.of_isReserved {kind : TokenKind} (h : kind.isReserved = true) :
    kind ≠ .string ∧ kind ≠ .bang ∧ kind ≠ .minus ∧ kind.suffix? = none := by
  cases kind with
  | functionWord | letWord | trueWord | falseWord | ifWord | elseWord | returnWord => decide
  | _ => cases h

/-- A run of letters is a name, unless it is reserved. -/
theorem Word.genuine_letters {run : List Char} (hne : run ≠ []) (hrun : run.all isLetter = true) :
    Word.Genuine ⟨.ofWord (String.ofList run), String.ofList run⟩ := by
  rcases TokenKind.ofWord_cases (String.ofList run) with hident | hreserved
  · refine ⟨fun _ => ?_, by simp [hident], by simp [hident], by simp [hident, TokenKind.suffix?]⟩
    simp only [isName, Bool.and_eq_true, decide_eq_true_eq, String.toList_ofList]
    refine ⟨⟨fun hempty => hne ?_, hrun⟩, hident⟩
    rw [← String.toList_ofList (l := run), hempty]
    rfl
  · obtain ⟨hstring, hbang, hminus, hsuffix⟩ := TokenKind.of_isReserved hreserved
    refine ⟨fun hident => ?_, by simp [hstring], by simp [hbang, hminus], by simp [hsuffix]⟩
    simp only at hident
    rw [hident] at hreserved
    cases hreserved

theorem Word.genuine_read (c : Char) (rest : List Char) :
    Word.Genuine ⟨(Lexeme.read c rest).kind, String.ofList (Lexeme.read c rest).text⟩ := by
  unfold Lexeme.read
  split
  · next alone doubled hpaired =>
      unfold paired? at hpaired
      split at hpaired
      · cases hpaired
        split
        all_goals exact ⟨by decide, by decide, by decide, by decide⟩
      · cases hpaired
        split
        all_goals exact ⟨by decide, by decide, by decide, by decide⟩
      · cases hpaired
  · split
    · next kind hsymbol =>
        unfold symbol? at hsymbol
        split at hsymbol
        all_goals
          cases hsymbol
        all_goals exact ⟨by decide, by decide, by decide, by decide⟩
    · split
      · exact genuine_quoted rest
      · split
        · next hletter =>
            refine genuine_letters (List.cons_ne_nil _ _) ?_
            rw [List.all_cons, hletter, Bool.true_and]
            exact List.all_takeWhile
        · split
          all_goals exact ⟨by simp, by simp, by simp, by simp [TokenKind.suffix?]⟩

theorem Scanner.genuine_next (s : Scanner) : s.next.1.word.Genuine := by
  unfold next tokenHere
  split
  · have hend : Word.Genuine ⟨.eof, ""⟩ := ⟨by decide, by decide, by decide, by decide⟩
    exact hend
  · exact Word.genuine_read _ _

end Words

namespace Parser

open Step

/-- Both words at hand are genuine. -/
def State.Genuine (p : State) : Prop :=
  p.current.word.Genuine ∧ p.peek.word.Genuine

theorem State.Genuine.advance {p : State} (h : p.Genuine) : p.advance.Genuine :=
  ⟨h.2, p.scanner.genuine_next⟩

theorem State.genuine_ofString (source : String) : (State.ofString source).Genuine :=
  ⟨Scanner.genuine_next _, Scanner.genuine_next _⟩

variable {α β σ : Type}

/-- From a state with the first property, what the step yields has the second one. -/
def Ensures (pre : State → Prop) (x : Step α) (post : α → State → Prop) : Prop :=
  ∀ ⦃p : State⦄ ⦃a : α⦄ ⦃q : State⦄, p.Genuine → pre p → x.run p = .ok (a, q) →
    q.Genuine ∧ post a q

/-- Whatever the step yields has the property. -/
def Gives (x : Step α) (Q : α → Prop) : Prop :=
  Ensures (fun _ => True) x fun a _ => Q a

section Rules

variable {pre : State → Prop} {mid : α → State → Prop} {post : β → State → Prop} {A : α → Prop}
  {Q : β → Prop}

theorem Ensures.bind {x : Step α} {f : α → Step β} (hx : Ensures pre x mid)
    (hf : ∀ a, Ensures (mid a) (f a) post) : Ensures pre (x >>= f) post := by
  intro p b r hp hpre hrun
  rw [run_bind] at hrun
  cases hfirst : x.run p with
  | error fault =>
      rw [hfirst] at hrun
      cases hrun
  | ok result =>
      obtain ⟨a, q⟩ := result
      rw [hfirst] at hrun
      obtain ⟨hq, hmid⟩ := hx hp hpre hfirst
      exact hf a hq hmid hrun

theorem Gives.ensures {x : Step β} (hx : Gives x Q) : Ensures pre x fun b _ => Q b :=
  fun _ _ _ hp _ hrun => hx hp trivial hrun

theorem gives_pure {b : β} (hb : Q b) : Gives (pure b) Q := by
  intro p a q hp _ hrun
  cases hrun
  exact ⟨hp, hb⟩

theorem Gives.bind {x : Step α} {f : α → Step β} (hx : Gives x A) (hf : ∀ a, A a → Gives (f a) Q) :
    Gives (x >>= f) Q :=
  Ensures.bind hx fun a _ _ _ hp ha hrun => hf a ha hp trivial hrun

theorem Gives.ite {c : Prop} [Decidable c] {x y : Step β} (hx : c → Gives x Q) (hy : ¬c → Gives y Q) :
    Gives (if c then x else y) Q := by
  by_cases hc : c
  · rw [if_pos hc]
    exact hx hc
  · rw [if_neg hc]
    exact hy hc

/-- A step that looks at the current token sees a genuine one, and stays where it is. -/
theorem Ensures.current {f : Token → Step β}
    (hf : ∀ t : Token, t.word.Genuine → Ensures (fun p => p.current = t) (f t) post) :
    Ensures (fun _ => True) (current >>= f) post :=
  fun p _ _ hp _ hrun => hf p.current hp.1 hp rfl hrun

/-- What was known of the current token is known of the token that is seen. -/
theorem Ensures.currentWith {P : Token → Prop} {f : Token → Step β}
    (hf : ∀ t : Token, t.word.Genuine → P t → Gives (f t) Q) :
    Ensures (fun p => P p.current) (Step.current >>= f) fun b _ => Q b :=
  fun p _ _ hp hP hrun => hf p.current hp.1 hP hp trivial hrun

theorem Gives.current {f : Token → Step β} (hf : ∀ t, Gives (f t) Q) :
    Gives (Step.current >>= f) Q :=
  Ensures.current fun t _ => (hf t).ensures

theorem ensures_peekKind :
    Ensures (fun _ => True) peekKind fun kind p => p.peek.kind = kind := by
  intro p kind q hp _ hrun
  cases hrun
  exact ⟨hp, rfl⟩

theorem ensures_advance (P : Token → Prop) :
    Ensures (fun p => P p.peek) advance fun _ p => P p.current := by
  intro p u q hp hP hrun
  cases hrun
  exact ⟨hp.advance, hP⟩

theorem gives_peekKind : Gives peekKind fun _ => True := by
  intro p kind q hp _ hrun
  cases hrun
  exact ⟨hp, trivial⟩

theorem gives_advance : Gives advance fun _ => True := by
  intro p u q hp _ hrun
  cases hrun
  exact ⟨hp.advance, trivial⟩

theorem gives_report (e : SyntaxError) : Gives (report e) fun _ => True := by
  intro p u q hp _ hrun
  cases hrun
  exact ⟨hp, trivial⟩

theorem gives_halt (fault : Fault) : Gives (halt fault : Step β) Q := by
  intro p b q _ _ hrun
  cases hrun

theorem ensures_expectPeek (wanted : TokenKind) :
    Ensures (fun _ => True) (expectPeek wanted) fun found p =>
      found = true → p.current.kind = wanted := by
  intro p found q hp _ hrun
  rw [run_expectPeek] at hrun
  split at hrun
  · next hkind =>
      cases hrun
      exact ⟨hp.advance, fun _ => hkind⟩
  · cases hrun
    refine ⟨hp, fun hfound => ?_⟩
    cases hfound

theorem gives_expectPeek (wanted : TokenKind) : Gives (expectPeek wanted) fun _ => True :=
  fun _ _ _ hp _ hrun => ⟨(ensures_expectPeek wanted hp trivial hrun).1, trivial⟩

/-- Where an identifier was wanted and found, the current token is a name. -/
theorem Gives.ifName {f : Token → Step β} {y : Step β}
    (hf : ∀ t : Token, isName t.text = true → Gives (f t) Q) (hy : Gives y Q) :
    Gives (expectPeek .ident >>= fun found => if found = true then Step.current >>= f else y) Q := by
  refine (ensures_expectPeek .ident).bind fun found => ?_
  cases found with
  | true =>
      rw [if_pos rfl]
      refine (Ensures.currentWith (P := fun t => true = true → t.kind = .ident) ?_)
      intro t ht hkind
      exact hf t (ht.name (hkind rfl))
  | false =>
      rw [if_neg (by decide)]
      exact hy.ensures

/-- The round goes on with a state that has the first property, or is done with a result that has the
second one. -/
def Keeps (I : σ → Prop) (Q : α → Prop) : Round σ α → Prop
  | .again s => I s
  | .done a => Q a

theorem gives_again {I : σ → Prop} {s : σ} (hs : I s) :
    Gives (pure (Round.again s : Round σ β)) (Keeps I Q) :=
  gives_pure hs

theorem gives_done {I : σ → Prop} {b : β} (hb : Q b) :
    Gives (pure (Round.done b : Round σ β)) (Keeps I Q) :=
  gives_pure hb

/-- A loop gives what its rounds keep. -/
theorem Gives.iterate {round : σ → Step (Round σ β)} {shrinks : ∀ s, Shrinks (round s)}
    {I : σ → Prop} (hround : ∀ s, I s → Gives (round s) (Keeps I Q))
    {s : σ} (hs : I s) : Gives (iterate round shrinks s) Q := by
  intro p b q hp _ hrun
  change iterateRun round shrinks s p = _ at hrun
  fun_induction iterateRun round shrinks s p with
  | case1 => cases hrun
  | case2 s p b r hr =>
      cases hrun
      exact hround s hs hp trivial hr
  | case3 s p s' r hr ih =>
      obtain ⟨hr', hs'⟩ := hround s hs hp trivial hr
      exact ih hs' hr' hrun

end Rules

theorem wellFormedPairs_put {key value : Expr} (hkey : key.wellFormed = true)
    (hvalue : value.wellFormed = true) (read : List (Expr × Expr))
    (h : Expr.wellFormedPairs read = true) :
    Expr.wellFormedPairs (Table.put key value read) = true := by
  induction read with
  | nil => simp only [Table.put, Expr.wellFormedPairs, hkey, hvalue, Bool.and_self]
  | cons pair rest ih =>
      obtain ⟨k, v⟩ := pair
      simp only [Expr.wellFormedPairs, Bool.and_eq_true] at h
      rw [Table.put]
      split
      · simp only [Expr.wellFormedPairs, h, hvalue, Bool.and_self]
      · simp only [Expr.wellFormedPairs, h, ih h.2, Bool.and_self]

/-- What a production yields has the property, if it yields anything. -/
def GivesPhrase (x : Step (Option α)) (P : α → Prop) : Prop :=
  Gives x fun found => ∀ a ∈ found, P a

section Phrases

variable {P : α → Prop} {Q : β → Prop}

theorem givesPhrase_none : GivesPhrase (pure none) P :=
  gives_pure (by simp)

theorem givesPhrase_some {a : α} (ha : P a) : GivesPhrase (pure (some a)) P := by
  refine gives_pure ?_
  intro b hb
  cases hb
  exact ha

theorem gives_failed {I : σ → Prop} :
    Gives (pure (Round.done none : Round σ (Option α))) (Keeps I fun found => ∀ a ∈ found, P a) :=
  gives_done (by simp)

theorem gives_finished {I : σ → Prop} {a : α} (ha : P a) :
    Gives (pure (Round.done (some a) : Round σ (Option α)))
      (Keeps I fun found => ∀ a ∈ found, P a) := by
  refine gives_done ?_
  intro b hb
  cases hb
  exact ha

theorem givesPhrase_map {found : Option α} (hfound : ∀ a ∈ found, P a) {f : α → β}
    (hf : ∀ a, P a → Q (f a)) : GivesPhrase (pure (found.map f)) Q := by
  cases found with
  | none => exact givesPhrase_none
  | some a => exact givesPhrase_some (hf a (hfound a rfl))

end Phrases

theorem gives_skipSemicolon : Gives skipSemicolon fun _ => True :=
  gives_peekKind.bind fun _ _ => .ite (fun _ => gives_advance) fun _ => gives_pure trivial

section Parameters

theorem gives_parameterRound {read : List String} (hread : read.all isName = true) :
    Gives (parameterRound read) (Keeps (fun read => read.all isName = true)
      fun names => ∀ ps ∈ names, ps.all isName = true) := by
  refine gives_peekKind.bind fun _ _ => .ite (fun _ => ?_) fun _ => ?_
  · refine gives_advance.bind fun _ _ => .ifName (fun name hname => gives_again ?_) gives_failed
    simp only [List.all_append, hread, List.all_cons, hname, List.all_nil, Bool.and_self]
  · exact (gives_expectPeek _).bind fun _ _ =>
      .ite (fun _ => gives_finished hread) fun _ => gives_failed

theorem gives_parameters : GivesPhrase parameters fun ps => ps.all isName = true := by
  refine gives_peekKind.bind fun _ _ => .ite (fun _ => ?_) fun _ => ?_
  · exact gives_advance.bind fun _ _ => givesPhrase_some rfl
  · refine .ifName (fun name hname => ?_) givesPhrase_none
    refine Gives.iterate (fun _ => gives_parameterRound) ?_
    simp only [List.all_cons, hname, List.all_nil, Bool.and_self]

end Parameters

theorem gives_integerLiteral (numeral : String) :
    GivesPhrase (integerLiteral numeral) fun e => e.wellFormed = true := by
  refine .ite (fun _ => gives_halt _) fun _ => ?_
  refine .ite (fun _ => ?_) fun hmax => ?_
  · exact (gives_report _).bind fun _ _ => givesPhrase_none
  · refine givesPhrase_some ?_
    simp only [Expr.wellFormed, Bool.and_eq_true, decide_eq_true_eq]
    exact ⟨Int.natCast_nonneg _, Int.not_lt.mp hmax⟩

section Productions

variable {expression : Reader} (h : ∀ level, GivesPhrase (expression level) fun e => e.wellFormed = true)
include h

theorem gives_letStatement : GivesPhrase (letStatement expression) fun s => s.wellFormed = true := by
  refine .ifName (fun name hname => ?_) givesPhrase_none
  refine (gives_expectPeek _).bind fun _ _ => .ite (fun _ => ?_) fun _ => givesPhrase_none
  refine gives_advance.bind fun _ _ => (h _).bind fun value hvalue => ?_
  refine gives_skipSemicolon.bind fun _ _ => givesPhrase_map hvalue fun e he => ?_
  simp only [Stmt.wellFormed, hname, he, Bool.and_self]

theorem gives_returnStatement :
    GivesPhrase (returnStatement expression) fun s => s.wellFormed = true := by
  refine gives_advance.bind fun _ _ => (h _).bind fun value hvalue => ?_
  exact gives_skipSemicolon.bind fun _ _ => givesPhrase_map hvalue fun _ he => he

theorem gives_expressionStatement :
    GivesPhrase (expressionStatement expression) fun s => s.wellFormed = true := by
  refine (h _).bind fun value hvalue => ?_
  exact gives_skipSemicolon.bind fun _ _ => givesPhrase_map hvalue fun _ he => he

theorem gives_statementWith :
    GivesPhrase (statementWith expression) fun s => s.wellFormed = true := by
  refine Gives.current fun token => ?_
  split
  · exact gives_letStatement h
  · exact gives_returnStatement h
  · exact gives_expressionStatement h

theorem gives_statementRound (ends : TokenKind → Bool) {read : Block}
    (hread : Stmt.wellFormedAll read = true) :
    Gives (statementRound expression ends read)
      (Keeps (fun read => Stmt.wellFormedAll read = true) fun body => Stmt.wellFormedAll body = true) := by
  refine Gives.current fun token => .ite (fun _ => gives_done hread) fun _ => ?_
  refine (gives_statementWith h).bind fun found hfound => gives_advance.bind fun _ _ => gives_again ?_
  cases found with
  | none =>
      rw [Option.toList_none, List.append_nil]
      exact hread
  | some s =>
      simp only [Option.toList_some, Stmt.wellFormedAll_append, hread, Stmt.wellFormedAll,
        hfound s rfl, Bool.and_self]

theorem gives_statementsUntil (ends : TokenKind → Bool) :
    Gives (statementsUntil expression ends) fun body => Stmt.wellFormedAll body = true :=
  Gives.iterate (fun _ => gives_statementRound h ends) rfl

theorem gives_blockWith :
    Gives (blockWith expression) fun body => Stmt.wellFormedAll body = true :=
  gives_advance.bind fun _ _ => gives_statementsUntil h _

theorem gives_programWith : Gives (programWith expression) fun p => p.wellFormed = true :=
  (gives_statementsUntil h _).bind fun _ hbody => gives_pure hbody

theorem gives_expressionRound (close : TokenKind) {read : List Expr}
    (hread : Expr.wellFormedAll read = true) :
    Gives (expressionRound expression close read) (Keeps (fun read => Expr.wellFormedAll read = true)
      fun found => ∀ es ∈ found, Expr.wellFormedAll es = true) := by
  refine gives_peekKind.bind fun _ _ => .ite (fun _ => ?_) fun _ => ?_
  · refine gives_advance.bind fun _ _ => gives_advance.bind fun _ _ => ?_
    refine (h _).bind fun found hfound => ?_
    cases found with
    | none => exact gives_failed
    | some e =>
        refine gives_again ?_
        simp only [Expr.wellFormedAll_append, hread, Expr.wellFormedAll, hfound e rfl,
          Bool.and_self]
  · exact (gives_expectPeek _).bind fun _ _ =>
      .ite (fun _ => gives_finished hread) fun _ => gives_failed

theorem gives_expressionListWith (close : TokenKind) :
    GivesPhrase (expressionListWith expression close) fun es => Expr.wellFormedAll es = true := by
  refine gives_peekKind.bind fun _ _ => .ite (fun _ => ?_) fun _ => ?_
  · exact gives_advance.bind fun _ _ => givesPhrase_some rfl
  · refine gives_advance.bind fun _ _ => (h _).bind fun found hfound => ?_
    cases found with
    | none => exact givesPhrase_none
    | some e =>
        refine Gives.iterate (fun _ => gives_expressionRound h close) ?_
        simp only [Expr.wellFormedAll, hfound e rfl, Bool.and_self]

/-- The operator is the token that the operand was chosen by. -/
theorem ensures_unary {t : Token} (ht : t.text ∈ unaryOperators) :
    Ensures (fun p => p.current = t) (unary expression) fun found _ =>
      ∀ e ∈ found, e.wellFormed = true := by
  refine Ensures.currentWith (P := fun op => op = t) fun op _ hop => ?_
  refine gives_advance.bind fun _ _ => (h _).bind fun right hright => ?_
  refine givesPhrase_map hright fun e he => ?_
  simp only [Expr.wellFormed, hop, ht, decide_true, he, Bool.and_self]

theorem gives_grouped : GivesPhrase (grouped expression) fun e => e.wellFormed = true := by
  refine gives_advance.bind fun _ _ => (h _).bind fun found hfound => ?_
  exact (gives_expectPeek _).bind fun _ _ =>
    .ite (fun _ => gives_pure hfound) fun _ => givesPhrase_none

theorem gives_branches {condition : Option Expr} (hcondition : ∀ c ∈ condition, c.wellFormed = true) :
    GivesPhrase (branches expression condition) fun e => e.wellFormed = true := by
  refine (gives_blockWith h).bind fun consequence hthen => ?_
  refine gives_peekKind.bind fun _ _ => .ite (fun _ => ?_) fun _ => ?_
  · refine gives_advance.bind fun _ _ => (gives_expectPeek _).bind fun _ _ => ?_
    refine .ite (fun _ => ?_) fun _ => givesPhrase_none
    refine (gives_blockWith h).bind fun alternative helse => ?_
    refine givesPhrase_map hcondition fun c hc => ?_
    simp only [Expr.wellFormed, hc, hthen, helse, Bool.and_self]
  · refine givesPhrase_map hcondition fun c hc => ?_
    simp only [Expr.wellFormed, hc, hthen, Bool.and_self]

theorem gives_conditional : GivesPhrase (conditional expression) fun e => e.wellFormed = true := by
  refine (gives_expectPeek _).bind fun _ _ => .ite (fun _ => ?_) fun _ => givesPhrase_none
  refine gives_advance.bind fun _ _ => (h _).bind fun condition hcondition => ?_
  refine (gives_expectPeek _).bind fun _ _ => .ite (fun _ => ?_) fun _ => givesPhrase_none
  exact (gives_expectPeek _).bind fun _ _ =>
    .ite (fun _ => gives_branches h hcondition) fun _ => givesPhrase_none

theorem gives_functionLiteral :
    GivesPhrase (functionLiteral expression) fun e => e.wellFormed = true := by
  refine (gives_expectPeek _).bind fun _ _ => .ite (fun _ => ?_) fun _ => givesPhrase_none
  refine gives_parameters.bind fun names hnames => ?_
  cases names with
  | none => exact givesPhrase_none
  | some names =>
      refine (gives_expectPeek _).bind fun _ _ => .ite (fun _ => ?_) fun _ => givesPhrase_none
      refine (gives_blockWith h).bind fun body hbody => givesPhrase_some ?_
      simp only [Expr.wellFormed, hnames names rfl, hbody, Bool.and_self]

theorem gives_arrayLiteral :
    GivesPhrase (arrayLiteral expression) fun e => e.wellFormed = true :=
  (gives_expressionListWith h _).bind fun _ helements => givesPhrase_map helements fun _ hes => hes

theorem gives_pairRound {read : List (Expr × Expr)} (hread : (Expr.hash read).wellFormed = true) :
    Gives (pairRound expression read) (Keeps (fun read => (Expr.hash read).wellFormed = true)
      fun found => ∀ e ∈ found, e.wellFormed = true) := by
  have hput : ∀ k v : Expr, k.wellFormed = true → v.wellFormed = true →
      (Expr.hash (Table.put k v read)).wellFormed = true := by
    intro k v hk hv
    simp only [Expr.wellFormed, Bool.and_eq_true, decide_eq_true_eq] at hread ⊢
    exact ⟨Table.nodup_keys_put hread.1 k v, wellFormedPairs_put hk hv read hread.2⟩
  refine gives_peekKind.bind fun _ _ => .ite (fun _ => ?_) fun _ => ?_
  · exact gives_advance.bind fun _ _ => gives_finished hread
  · refine gives_advance.bind fun _ _ => (h _).bind fun key hkey => ?_
    refine (gives_expectPeek _).bind fun _ _ => .ite (fun _ => ?_) fun _ => gives_failed
    refine gives_advance.bind fun _ _ => (h _).bind fun value hvalue => ?_
    split
    · next k v =>
        have hpair := hput k v (hkey k rfl) (hvalue v rfl)
        refine gives_peekKind.bind fun _ _ => .ite (fun _ => gives_again hpair) fun _ => ?_
        exact (gives_expectPeek _).bind fun _ _ =>
          .ite (fun _ => gives_again hpair) fun _ => gives_failed
    · exact gives_failed

theorem gives_hashLiteral : GivesPhrase (hashLiteral expression) fun e => e.wellFormed = true :=
  Gives.iterate (fun _ => gives_pairRound h) rfl

theorem gives_operand : GivesPhrase (operand expression) fun e => e.wellFormed = true := by
  refine Ensures.current fun token ht => ?_
  have hliteral : ∀ e : Expr, e.wellFormed = true →
      Ensures (fun p => p.current = token) (pure (some e)) fun found _ =>
        ∀ e ∈ found, e.wellFormed = true :=
    fun _ he => (givesPhrase_some (P := fun e : Expr => e.wellFormed = true) he).ensures
  split
  · next hkind => exact hliteral _ (ht.name hkind)
  · exact (gives_integerLiteral _).ensures
  · next hkind => exact hliteral _ (decide_eq_true (ht.string hkind))
  · exact hliteral _ rfl
  · exact hliteral _ rfl
  · next hkind => exact ensures_unary h (ht.unary (.inl hkind))
  · next hkind => exact ensures_unary h (ht.unary (.inr hkind))
  · exact (gives_grouped h).ensures
  · exact (gives_conditional h).ensures
  · exact (gives_functionLiteral h).ensures
  · exact (gives_arrayLiteral h).ensures
  · exact (gives_hashLiteral h).ensures
  · exact ((gives_report _).bind fun _ _ => givesPhrase_none).ensures

/-- The way of going on is that of the current token. -/
theorem ensures_suffix {left : Expr} (hleft : left.wellFormed = true) (way : Suffix) :
    Ensures (fun p => p.current.kind.suffix? = some way) (suffix expression left way) fun found _ =>
      ∀ e ∈ found, e.wellFormed = true := by
  cases way with
  | operator =>
      refine Ensures.currentWith (P := fun op => op.kind.suffix? = some .operator) fun op hop hway => ?_
      refine gives_advance.bind fun _ _ => (h _).bind fun right hright => ?_
      refine givesPhrase_map hright fun e he => ?_
      have htext : op.text ∈ binaryOperators := hop.binary hway
      simp only [Expr.wellFormed, htext, decide_true, hleft, he, Bool.and_self]
  | call =>
      refine Gives.ensures ?_
      refine (gives_expressionListWith h _).bind fun found hfound => ?_
      refine givesPhrase_map hfound fun es hes => ?_
      simp only [Expr.wellFormed, hleft, hes, Bool.and_self]
  | index =>
      refine Gives.ensures ?_
      refine gives_advance.bind fun _ _ => (h _).bind fun subscript hsubscript => ?_
      refine (gives_expectPeek _).bind fun _ _ => .ite (fun _ => ?_) fun _ => givesPhrase_none
      refine givesPhrase_map hsubscript fun e he => ?_
      simp only [Expr.wellFormed, hleft, he, Bool.and_self]

theorem gives_suffixRound (level : Precedence) {left : Expr} (hleft : left.wellFormed = true) :
    Gives (suffixRound expression level left) (Keeps (fun e => e.wellFormed = true)
      fun found => ∀ e ∈ found, e.wellFormed = true) := by
  have hdone : Gives (pure (Round.done (some left))) (Keeps (fun e : Expr => e.wellFormed = true)
      fun found => ∀ e ∈ found, e.wellFormed = true) :=
    gives_finished hleft
  have hagain : ∀ e : Expr, e.wellFormed = true → Gives (pure (Round.again e))
      (Keeps (fun e => e.wellFormed = true) fun found : Option Expr =>
        ∀ e ∈ found, e.wellFormed = true) :=
    fun e he => gives_again he
  refine ensures_peekKind.bind fun kind => ?_
  by_cases htight : level.rank < kind.precedence.rank
  · rw [if_pos htight]
    cases hway : kind.suffix? with
    | none => exact hdone.ensures
    | some way =>
        have hsuffix := ensures_suffix h hleft way
        rw [← hway] at hsuffix
        refine (ensures_advance fun t => t.kind = kind).bind fun _ => ?_
        refine Ensures.bind (fun p a q hp hkind hrun => hsuffix hp (hkind ▸ rfl) hrun) fun found => ?_
        cases found with
        | none => exact gives_failed.ensures
        | some e => exact fun p a q hp hfound hrun => hagain e (hfound e rfl) hp trivial hrun
  · rw [if_neg htight]
    exact hdone.ensures

theorem gives_expressionWith (level : Precedence) :
    GivesPhrase (expressionWith expression level) fun e => e.wellFormed = true := by
  refine (gives_operand h).bind fun found hfound => ?_
  cases found with
  | none => exact givesPhrase_none
  | some left =>
      exact Gives.iterate (fun _ => gives_suffixRound h level)
        (hfound left rfl)

end Productions

theorem gives_expressionWithin (depth : Nat) (level : Precedence) :
    GivesPhrase (expressionWithin depth level) fun e => e.wellFormed = true := by
  induction depth generalizing level with
  | zero => exact gives_halt _
  | succ depth ih => exact gives_expressionWith ih level

end Parser

/-- Every program that is read is well-formed, with errors or without. -/
theorem wellFormed_of_parse {source : String} {parsed : Parsed} (h : parse source = .ok parsed) :
    parsed.program.wellFormed = true := by
  rw [parse] at h
  cases hrun : Parser.program.run (.ofString source) with
  | error fault =>
      rw [hrun] at h
      cases h
  | ok result =>
      obtain ⟨p, last⟩ := result
      rw [hrun] at h
      cases h
      have hgives := Parser.gives_programWith (Parser.gives_expressionWithin Parser.maxNesting)
      exact (hgives (Parser.State.genuine_ofString source) trivial hrun).2

end Scriptlet
