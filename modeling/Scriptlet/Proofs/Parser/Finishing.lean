import Scriptlet.Proofs.Parser.Enclosed
import Scriptlet.Proofs.Scanner.Spelling

/-!
# Texts that are read to the end

Syntax errors do not stop a parser.  Two things can: a numeral that is too long, and a host that has not the
room it takes, be it for expressions inside each other or for the look-up of a key.

**Method.**  One rule a production, in the order of the grammar: each is read inside the openings around it
and leaves them open.  Brackets are those of the enclosure: a production that has opened a bracket reads
what is in it inside the bracket, and closing it leaves what is around it.

**Results.**
* `finishes_program`: a program that nests no deeper than there is room for is read to its end, and its
  numerals have been handled then.
* `parse_of_nestingDepth_le`: what a host has room for is parsed just if no numeral is too long, and every
  numeral that denotes too large an integer is reported.
-/

namespace Scriptlet

namespace Parser

open Step

variable {α β σ : Type} {v : Survey} {c : Enclosure} {inside base : List Opening} {kind : TokenKind}
  {p q : State}

section Productions

variable [Capacity] {depth : Nat} {expression : Reader}

/-- What is in brackets has been read, and the closing bracket is looked for. -/
theorem finishes_closed {close : TokenKind} (hcloses : close.closes = true)
    (hin : Within v (.bracket close :: inside) p) (found : Option α) :
    Finishes v p (expectPeek close >>= fun ok => if ok = true then pure found else pure none)
      (Answers v inside) := by
  refine .ifExpect (fun hk => ?_) fun e => ?_
  · exact finishes_pure ((hin.close hk hcloses).answers found)
  · exact ((hin.mono (List.suffix_cons _ _)).report e).answers_none

section Statements

theorem finishes_skipSemicolon (hin : Within v inside p) (hsign : inside.head? ≠ some .sign) :
    Finishes v p skipSemicolon fun _ q => Within v inside q := by
  refine .peekKind (.ite (fun hk => ?_) fun _ => finishes_pure hin)
  exact hin.step hk (by decide) hsign rfl

theorem finishes_parameters (hin : Within v (.bracket .rparen :: inside) p) :
    Finishes v p parameters fun _ q => Within v inside q := by
  have hunder : inside <:+ .bracket .rparen :: inside := List.suffix_cons _ _
  refine .peekKind (.ite (fun hk => ?_) fun _ => .ifExpect (fun hk => ?_) fun e => ?_)
  · exact .advance (finishes_pure (hin.close hk rfl).within)
  · have hfirst := hin.step hk (by decide) (by simp) rfl
    refine .current (.iterate (Within v (.bracket .rparen :: inside)) ?_ _ hfirst)
    intro read p hin
    refine .peekKind (.ite (fun hk => .advance ?_) fun _ => ?_)
    · have hcomma := hin.step hk (by decide) (by simp) rfl
      refine .ifExpect (fun hk => ?_) fun e => ((hcomma.mono hunder).report e)
      exact .current (finishes_pure (hcomma.step hk (by decide) (by simp) rfl))
    · refine .ifExpect (fun hk => ?_) fun e => ((hin.mono hunder).report e)
      exact finishes_pure (hin.close hk rfl).within
  · exact (hin.mono hunder).report e

variable (h : Copes v depth expression)
include h

/-- The end of every statement: an expression, and a semicolon if there is one. -/
theorem finishes_ended (hroom : Room v depth base) (hbase : Floor base) (hat : At v c p)
    (hin : base <:+ c.openings) (hstarts : base <:+ (c.next p.current.kind).openings)
    (g : Expr → β) :
    Finishes v p (expression .lowest >>= fun value => skipSemicolon >>= fun _ =>
      pure (value.map g)) fun _ q => Within v base q := by
  refine (h.item hroom hat hin hbase.sign (fun _ => hbase) hstarts).bind fun value q hq => ?_
  exact (finishes_skipSemicolon hq.1 hbase.sign).bind fun _ q hq => finishes_pure hq

theorem finishes_statementWith (hroom : Room v depth base) (hbase : Floor base) (hat : At v c p)
    (hin : base <:+ c.openings) (hopen : base.head? ≠ some (.bracket p.current.kind)) :
    Finishes v p (statementWith expression) fun _ q => Within v base q := by
  have hstarts : base <:+ (c.next p.current.kind).openings :=
    c.suffix_next hin (Or.inr hbase.sign) (Or.inr (Or.inr hopen))
  have hvalue : ∀ {c p}, Past v c p → base <:+ c.openings → c.place = .operand →
      ∀ g : Expr → Stmt, Finishes v p (Step.advance >>= fun _ => expression .lowest >>= fun value =>
        skipSemicolon >>= fun _ => pure (value.map g)) fun _ q => Within v base q := by
    intro c p hp hin hplace g
    refine .advance (finishes_ended h hroom hbase hp.advance hin ?_ g)
    exact c.suffix_next hin (Or.inl hplace) (Or.inl hplace)
  refine .current ?_
  split
  · next hk =>
      rw [hk] at hstarts
      have hlet := hat.past_of_ne hk (by decide)
      refine .ifExpect (fun hk => .current ?_) fun e => Within.report ⟨_, hlet, hstarts⟩ e
      have hname : Past v _ _ := hlet.step hk (by decide)
      have hstarts : base <:+ ((c.next .letWord).next .ident).openings :=
        Enclosure.suffix_next hstarts (Or.inr hbase.sign) (Or.inr (Or.inl rfl))
      refine .ifExpect (fun hk => ?_) fun e => Within.report ⟨_, hname, hstarts⟩ e
      have hassign : Past v _ _ := hname.step hk (by decide)
      have hstarts : base <:+ (((c.next .letWord).next .ident).next .assign).openings :=
        Enclosure.suffix_next hstarts (Or.inr hbase.sign) (Or.inr (Or.inl rfl))
      exact hvalue hassign hstarts rfl _
  · next hk =>
      rw [hk] at hstarts
      exact hvalue (hat.past_of_ne hk (by decide)) hstarts rfl _
  · exact finishes_ended h hroom hbase hat hin hstarts _

/-- Statements are read up to a token that ends them, by induction along the loop. -/
theorem finishes_statementsUntil {ends : TokenKind → Bool} (hroom : Room v depth base)
    (hbase : Floor base) (hends : ∀ kind, ends kind = false → base.head? ≠ some (.bracket kind))
    (hp : ∃ c, At v c p ∧ base <:+ c.openings) :
    Finishes v p (statementsUntil expression ends) fun _ q =>
      (∃ c, At v c q ∧ base <:+ c.openings) ∧
        (q.current.kind = .eof ∨ ends q.current.kind = true) := by
  refine .iterate (fun p => ∃ c, At v c p ∧ base <:+ c.openings) ?_ _ hp
  rintro read p ⟨c, hat, hin⟩
  refine .current (.ite (fun hk => ?_) fun hk => ?_)
  · refine finishes_pure ⟨⟨c, hat, hin⟩, ?_⟩
    simpa using hk
  · have hgoes : ends p.current.kind = false := by
      simp only [Bool.or_eq_true, decide_eq_true_eq, not_or] at hk
      exact Bool.eq_false_iff.mpr hk.2
    refine (finishes_statementWith h hroom hbase hat hin (hends _ hgoes)).bind ?_
    rintro s q ⟨c', hq, hin'⟩
    exact .advance (finishes_pure ⟨c', hq.advance, hin'⟩)

theorem finishes_blockWith (hroom : Room v depth (.bracket .rbrace :: inside))
    (hin : Within v (.bracket .rbrace :: inside) p) :
    Finishes v p (blockWith expression) fun _ q => Completed v inside q := by
  obtain ⟨c, hp, hin⟩ := hin
  refine .advance ((finishes_statementsUntil h hroom (floor_brace inside) ?_
    ⟨c, hp.advance, hin⟩).mono ?_)
  · intro kind hgoes hhead
    obtain rfl := Opening.bracket.inj (Option.some.inj hhead)
    cases hgoes
  · rintro _ q ⟨⟨c, hat, hin⟩, hk⟩
    have hunder := fun kind => c.suffix_next_of_bracket hin kind
    rcases hk with hk | hk
    · exact ⟨_, hat.past_of_ne hk (by decide), hunder _, Or.inr (hat.peek_of_eof hk)⟩
    · have hk : q.current.kind = .rbrace := of_decide_eq_true hk
      exact ⟨_, hat.past_of_ne hk (by decide), hunder _, Or.inl (c.place_next_of_closes rfl)⟩

end Statements

theorem finishes_integerLiteral (hat : At v c p) (hk : p.current.kind = .int)
    (hin : inside <:+ (c.next .int).openings) :
    Finishes v p (integerLiteral p.current.text) (Answers v inside) := by
  rw [← hk] at hin
  refine .ite (fun hlong => ?_) fun hshort => .ite (fun hlarge => ?_) fun hsmall => ?_
  · exact ⟨p.current.word, hat.current_mem (by rw [hk]; decide), hk, hlong⟩
  · have hreported : Handled p.current.word (p.errors ++ [.integerTooLarge p.current.text]) :=
      ⟨Nat.le_of_not_lt hshort, fun _ => List.mem_append_right _ (List.mem_singleton_self _)⟩
    exact Within.answers_none ⟨_, (hat.report _).past fun _ => hreported, hin⟩
  · have hread : Handled p.current.word p.errors :=
      ⟨Nat.le_of_not_lt hshort, fun hlarge => absurd hlarge hsmall⟩
    have hended : (c.next p.current.kind).place = .ended := by
      rw [hk]
      rfl
    exact Completed.answers ⟨_, hat.past fun _ => hread, hin, Or.inl hended⟩ _

section Expressions

variable (h : Copes v depth expression)
include h

/-- Neither a comma nor the first token of the item after it closes the bracket around a list. -/
theorem finishes_expressionRound {close : TokenKind} (hcloses : close.closes = true)
    (hbrace : close ≠ .rbrace) (hroom : Room v depth (.bracket close :: inside)) (read : List Expr)
    (hin : Within v (.bracket close :: inside) p) :
    Finishes v p (expressionRound expression close read)
      (Round.Keeps (Within v (.bracket close :: inside)) (Answers v inside)) := by
  have hunder : inside <:+ .bracket close :: inside := List.suffix_cons _ _
  have hsign : (Opening.bracket close :: inside).head? ≠ some .sign := by simp
  have hopen : TokenKind.closes .comma = false := rfl
  refine .peekKind (.ite (fun hk => .advance (.advance ?_)) fun _ => ?_)
  · obtain ⟨c, hp, hin⟩ := hin
    have hcomma : Past v (c.next .comma) p.advance := hp.step hk (by decide)
    refine (h.item hroom hcomma.advance (c.suffix_next hin (Or.inr hsign) (Or.inr (Or.inl hopen)))
      hsign (fun hended => absurd hended c.place_comma_ne) (c.suffix_next_comma hin hbrace _)).bind ?_
    intro e q hq
    cases e with
    | none => exact finishes_pure (hq.1.mono hunder).answers_none
    | some e => exact finishes_pure hq.1
  · refine .ifExpect (fun hk => ?_) fun e => ((hin.mono hunder).report e).answers_none
    exact finishes_pure ((hin.close hk hcloses).answers _)

/-- Items are read inside their bracket, which the first token of the first item does not close. -/
theorem finishes_expressionListWith {close : TokenKind} (hcloses : close.closes = true)
    (hbrace : close ≠ .rbrace) (hroom : Room v depth (.bracket close :: inside)) (hp : Past v c p)
    (hin : .bracket close :: inside <:+ c.openings) (hplace : c.place ≠ .ended) :
    Finishes v p (expressionListWith expression close) (Answers v inside) := by
  have hsign : (Opening.bracket close :: inside).head? ≠ some .sign := by simp
  refine .peekKind (.ite (fun hk => ?_) fun hk => .advance ?_)
  · exact .advance (finishes_pure ((Within.close ⟨c, hp, hin⟩ hk hcloses).answers _))
  · have hfirst : .bracket close :: inside <:+ (c.next p.advance.current.kind).openings := by
      refine c.suffix_next hin (Or.inr hsign) (Or.inr (Or.inr fun hhead => hk ?_))
      exact (Opening.bracket.inj (Option.some.inj hhead)).symm
    refine (h.item hroom hp.advance hin hsign (fun hended => absurd hended hplace) hfirst).bind ?_
    intro e q hq
    cases e with
    | none => exact finishes_pure (hq.1.mono (List.suffix_cons _ _)).answers_none
    | some e =>
        exact .iterate (Within v (.bracket close :: inside))
          (fun read p hin => finishes_expressionRound h hcloses hbrace hroom read hin) _ hq.1

/-- In brackets an operand is read, and then the closing bracket is looked for. -/
theorem finishes_enclosed {close : TokenKind} (hcloses : close.closes = true)
    (hroom : Room v depth (.bracket close :: inside)) (hp : Past v c p)
    (hin : .bracket close :: inside <:+ c.openings) (hplace : c.place = .operand)
    (g : Option Expr → Option β) :
    Finishes v p (advance >>= fun _ => expression .lowest >>= fun e =>
      expectPeek close >>= fun ok => if ok = true then pure (g e) else pure none)
      (Answers v inside) := by
  refine .advance ((h.operand hp.advance hplace hin (by simp) (hroom.enough _)).bind ?_)
  exact fun e q hq => finishes_closed hcloses hq.1 _

/-- A pair is read inside the brace, which no key closes, for a closing brace ends the pairs. -/
theorem finishes_pairRound (hroom : Room v depth (.bracket .rbrace :: inside))
    (read : List (Expr × Expr)) (hin : Within v (.bracket .rbrace :: inside) p) :
    Finishes v p (pairRound expression read)
      (Round.Keeps (Within v (.bracket .rbrace :: inside)) (Answers v inside)) := by
  have hfloor := floor_brace inside
  have hunder : inside <:+ .bracket .rbrace :: inside := List.suffix_cons _ _
  refine .peekKind (.ite (fun hk => .advance ?_) fun hk => .advance ?_)
  · exact finishes_pure ((hin.close hk rfl).answers _)
  · obtain ⟨c, hp, hin⟩ := hin
    have hkey : .bracket .rbrace :: inside <:+ (c.next p.advance.current.kind).openings :=
      c.suffix_next hin (Or.inr hfloor.sign) (Or.inr (Or.inr (hfloor.bracket hk)))
    refine (h.item hroom hp.advance hin hfloor.sign (fun _ => hfloor) hkey).ran.bind ?_
    rintro key q ⟨hq, hrun⟩
    refine .ifExpect (fun hcolon => .advance ?_) fun e => ((hq.1.mono hunder).report e).answers_none
    obtain ⟨c', hp', hin'⟩ := hq.1
    have hvalue : .bracket .rbrace :: inside <:+ (c'.next .colon).openings :=
      c'.suffix_next hin' (Or.inr hfloor.sign) (Or.inr (Or.inl rfl))
    refine (h.operand (hp'.step hcolon (by decide)).advance rfl hvalue (by simp)
      (hroom.enough _)).bind fun value q hq => ?_
    split
    · refine .ite (fun hhash => ?_) fun _ => ?_
      · exact ⟨_, h.keys hp.advance hrun hcolon, by simpa using hhash⟩
      · refine .peekKind (.ite (fun _ => finishes_pure hq.1) fun _ => .ifExpect (fun hk => ?_) ?_)
        · exact finishes_pure (hq.1.step hk (by decide) hfloor.sign rfl)
        · exact fun e => ((hq.1.mono hunder).report e).answers_none
    · exact finishes_pure (hq.1.mono hunder).answers_none

theorem finishes_branches (hroom : ∀ X, inside <:+ X → Room v depth (.bracket .rbrace :: X))
    (hin : Within v (.bracket .rbrace :: base) p) (hle : inside <:+ base) (condition : Option Expr) :
    Finishes v p (branches expression condition) (Answers v inside) := by
  refine (finishes_blockWith h (hroom base hle) hin).bind fun consequence q hq => ?_
  have hq := hq.mono hle
  refine .peekKind (.ite (fun hk => .advance ?_) fun _ => finishes_pure (hq.answers _))
  obtain ⟨c, hp, hin, -⟩ := hq
  have helse : Within v inside q.advance := ⟨_, hp.step hk (by decide), hin⟩
  refine .ifExpect (fun hk => ?_) fun e => (helse.report e).answers_none
  obtain ⟨X, hle, hbrace⟩ := helse.brace hk
  refine (finishes_blockWith h (hroom X hle) hbrace).bind fun alternative q hq => ?_
  exact finishes_pure ((hq.mono hle).answers _)

variable {level : Precedence} (hadmits : Admits v (depth + 1) c inside level)
include hadmits

/-- The sign opens a place inside it, unless it stands where an operand has ended. -/
theorem finishes_unary (hat : At v c p) (hk : p.current.kind = .bang ∨ p.current.kind = .minus) :
    Finishes v p (unary expression) (Answers v inside) := by
  have hplace : (c.next p.current.kind).place = .operand := by
    rcases hk with hk | hk <;> rw [hk] <;> rfl
  have hp : Past v (c.next p.current.kind) p :=
    hat.past_of_ne rfl (by rcases hk with hk | hk <;> rw [hk] <;> decide)
  have hread : ∀ base, inside <:+ base → base <:+ (c.next p.current.kind).openings →
      9 * v.depth + 10 ≤ depth + 9 * base.length + Precedence.unary.rank →
      Finishes v p (unary expression) (Answers v inside) := by
    intro base hle hin hroom
    refine .current (.advance ?_)
    refine (h.operand hp.advance hplace hin (fun _ => Nat.le_refl _) hroom).bind ?_
    exact fun right q hq => finishes_pure ((hq.mono hle).map _)
  have hsigned : (c.next p.current.kind).openings = .sign :: c.settled →
      Finishes v p (unary expression) (Answers v inside) := by
    intro hopenings
    refine hread (.sign :: c.settled) ?_ ?_ ?_
    · exact hadmits.around_settled.trans (List.suffix_cons _ _)
    · exact hopenings ▸ List.suffix_refl _
    · exact (hadmits.room_cons hadmits.around_settled .sign).enough _
  rcases hk with hk | hk
  · exact hsigned (by rw [hk]; rfl)
  · by_cases hended : c.place = .ended
    -- nothing is opened, and the tighter level makes up for that
    · have hopenings : (c.next p.current.kind).openings = c.settled := by
        rw [hk]
        exact if_pos hended
      refine hread inside (List.suffix_refl _) ?_ ?_
      · rw [hopenings]
        exact hadmits.around_settled
      · exact Nat.le_trans (hadmits.room_ended hended) (Nat.add_le_add_left (by decide) _)
    · exact hsigned (by rw [hk]; exact if_neg hended)

/-- After an operand the parenthesis is one that can be closed at once, so that what stands in it is
read inside what is around it. -/
theorem finishes_grouped (hat : At v c p) (hk : p.current.kind = .lparen) :
    Finishes v p (grouped expression) (Answers v inside) := by
  have hp := hat.past_of_ne hk (by decide)
  have hopenings : .bracket .rparen :: c.openings <:+ (c.next .lparen).openings :=
    List.suffix_refl _
  by_cases hended : c.place = .ended
  -- such a parenthesis counts as that of a call, so that the first token in it may close it
  · have hfloor := hadmits.floor hended
    have hplace : (c.next .lparen).place = .item := if_pos hended
    have hinner : Admits v depth (c.next .lparen) inside .lowest :=
      { around := (hadmits.around.trans (List.suffix_cons _ _)).trans hopenings
        sign := fun hsign => absurd hsign hfloor.sign
        floor := fun _ => hfloor
        room := by
          rw [hplace, if_neg (by decide)]
          exact hadmits.room_ended hended }
    have hstarts := hadmits.around.trans
      (Enclosure.suffix_next_of_bracket hopenings p.advance.current.kind)
    refine .advance ((h.reads hinner hp.advance hstarts).bind fun e q hq => .ifExpect (fun hk => ?_) ?_)
    · obtain ⟨c', hp, hin⟩ := hq.1
      refine finishes_pure (Completed.answers ⟨_, hp.step hk (by decide), ?_, ?_⟩ _)
      · exact c'.suffix_next hin (Or.inr hfloor.sign) (Or.inr (Or.inr (hfloor.bracket (by decide))))
      · exact Or.inl (c'.place_next_of_closes rfl)
    · exact fun e => (hq.1.report e).answers_none
  · have hplace : (c.next .lparen).place = .operand := if_neg hended
    have hread := finishes_enclosed h rfl (hadmits.room_cons hadmits.around _) hp hopenings hplace id
    exact hread.mono fun _ _ hq => hq.mono hadmits.around

theorem finishes_conditional (hat : At v c p) (hk : p.current.kind = .ifWord) :
    Finishes v p (conditional expression) (Answers v inside) := by
  have hsettled : inside <:+ c.settled := hadmits.around_settled
  have hif : Past v ⟨c.settled, .item⟩ p := hat.past_of_ne hk (by decide)
  refine .ifExpect (fun hk => ?_) fun e => (Within.report ⟨_, hif, hsettled⟩ e).answers_none
  have hparen : Past v ⟨.bracket .rparen :: c.settled, .operand⟩ p.advance :=
    hif.step hk (by decide)
  have hroom : Room v depth (.bracket .rparen :: c.settled) := hadmits.room_cons hsettled _
  refine .advance ((h.operand hparen.advance rfl (List.suffix_refl _) (by simp)
    (hroom.enough _)).bind fun condition q hq => ?_)
  have hunder : inside <:+ .bracket .rparen :: c.settled :=
    hsettled.trans (List.suffix_cons _ _)
  refine .ifExpect (fun hk => ?_) fun e => ((hq.1.mono hunder).report e).answers_none
  have hclosed : Within v inside q.advance := (hq.1.close hk rfl).within.mono hsettled
  refine .ifExpect (fun hk => ?_) fun e => (hclosed.report e).answers_none
  obtain ⟨X, hle, hbrace⟩ := hclosed.brace hk
  exact finishes_branches h (fun X hle => hadmits.room_cons hle _) hbrace hle condition

theorem finishes_functionLiteral (hat : At v c p) (hk : p.current.kind = .functionWord) :
    Finishes v p (functionLiteral expression) (Answers v inside) := by
  have hsettled : inside <:+ c.settled := hadmits.around_settled
  have hfn : Past v ⟨c.settled, .ended⟩ p := hat.past_of_ne hk (by decide)
  refine .ifExpect (fun hk => ?_) fun e => (Within.report ⟨_, hfn, hsettled⟩ e).answers_none
  have hparen : Within v (.bracket .rparen :: c.settled) p.advance :=
    ⟨_, hfn.step hk (by decide), List.suffix_refl _⟩
  refine (finishes_parameters hparen).bind fun names q hq => ?_
  have hq := hq.mono hsettled
  cases names with
  | none => exact finishes_pure hq.answers_none
  | some names =>
      refine .ifExpect (fun hk => ?_) fun e => (hq.report e).answers_none
      obtain ⟨X, hle, hbrace⟩ := hq.brace hk
      refine (finishes_blockWith h (hadmits.room_cons hle _) hbrace).bind fun body q hq => ?_
      exact finishes_pure ((hq.mono hle).answers _)

theorem finishes_arrayLiteral (hat : At v c p) (hk : p.current.kind = .lbracket) :
    Finishes v p (arrayLiteral expression) (Answers v inside) := by
  have hp := hat.past_of_ne hk (by decide)
  have hroom : Room v depth (.bracket .rbracket :: c.openings) :=
    hadmits.room_cons hadmits.around _
  have hplace : (c.next .lbracket).place ≠ .ended := by
    rw [Enclosure.next]
    split <;> simp
  refine (finishes_expressionListWith h rfl (by decide) hroom hp (List.suffix_refl _) hplace).bind ?_
  exact fun elements q hq => finishes_pure ((hq.mono hadmits.around).map _)

theorem finishes_hashLiteral (hat : At v c p) (hk : p.current.kind = .lbrace) :
    Finishes v p (hashLiteral expression) (Answers v inside) := by
  have hroom : Room v depth (.bracket .rbrace :: c.openings) :=
    hadmits.room_cons hadmits.around _
  have hbrace : Within v (.bracket .rbrace :: c.openings) p :=
    ⟨_, hat.past_of_ne hk (by decide), List.suffix_refl _⟩
  have hpairs : Finishes v p (hashLiteral expression) (Answers v c.openings) :=
    .iterate (Within v (.bracket .rbrace :: c.openings))
      (fun read p hin => finishes_pairRound h hroom read hin) _ hbrace
  exact hpairs.mono fun _ _ hq => hq.mono hadmits.around

theorem finishes_operand (hat : At v c p) (hin : inside <:+ (c.next p.current.kind).openings) :
    Finishes v p (operand expression) (Answers v inside) := by
  have hliteral : ∀ e : Expr, p.current.kind ≠ .int → (c.next p.current.kind).place = .ended →
      Finishes v p (pure (some e)) (Answers v inside) := by
    intro e hint hended
    exact finishes_pure (Completed.answers ⟨_, hat.past_of_ne rfl hint, hin, Or.inl hended⟩ _)
  refine .current ?_
  split
  · next hk => exact hliteral _ (by rw [hk]; decide) (by rw [hk]; rfl)
  · next hk =>
      rw [hk] at hin
      exact finishes_integerLiteral hat hk hin
  · next hk => exact hliteral _ (by rw [hk]; decide) (by rw [hk]; rfl)
  · next hk => exact hliteral _ (by rw [hk]; decide) (by rw [hk]; rfl)
  · next hk => exact hliteral _ (by rw [hk]; decide) (by rw [hk]; rfl)
  · next hk => exact finishes_unary h hadmits hat (Or.inl hk)
  · next hk => exact finishes_unary h hadmits hat (Or.inr hk)
  · next hk => exact finishes_grouped h hadmits hat hk
  · next hk => exact finishes_conditional h hadmits hat hk
  · next hk => exact finishes_functionLiteral h hadmits hat hk
  · next hk => exact finishes_arrayLiteral h hadmits hat hk
  · next hk => exact finishes_hashLiteral h hadmits hat hk
  · have hint : p.current.kind ≠ .int := by assumption
    have hp : Within v inside p := ⟨_, hat.past_of_ne rfl hint, hin⟩
    exact (hp.report _).answers_none

/-- An operator binds more tightly than the level, so that no sign is right around it: a sign takes what
binds more tightly than any operator. -/
theorem finishes_suffix {d : Enclosure} (hat : At v d p) (hended : d.place = .ended)
    (hin : inside <:+ d.openings) {way : Suffix} (hway : p.current.kind.suffix? = some way)
    (hlevel : level.rank < p.current.kind.precedence.rank) (left : Expr) :
    Finishes v p (suffix expression left way) (Answers v inside) := by
  cases way with
  | operator =>
      obtain ⟨hnext, hint, hrank⟩ := next_of_operator hway hended
      have hsign : inside.head? ≠ some .sign := by
        intro hhead
        -- a level as tight as a sign's is tighter than any operator
        have hunary := (hadmits.sign hhead).2
        omega
      have hp : Past v ⟨d.settled, .operand⟩ p := hnext ▸ hat.past_of_ne rfl hint
      refine .current (.advance ?_)
      refine (h.operand hp.advance rfl (Enclosure.suffix_settled hin (Or.inr hsign))
        (fun hhead => absurd hhead hsign) (hadmits.room_tighter hlevel)).bind ?_
      exact fun right q hq => finishes_pure (hq.map _)
  | call =>
      have hp := hat.past_of_ne (eq_lparen_of_suffix? hway) (by decide)
      have hplace : (d.next .lparen).place ≠ .ended := by
        rw [Enclosure.next, if_pos hended]
        simp
      refine (finishes_expressionListWith h rfl (by decide) (hadmits.room_cons hin _) hp
        (List.suffix_refl _) hplace).bind ?_
      exact fun arguments q hq => finishes_pure ((hq.mono hin).map _)
  | index =>
      have hp := hat.past_of_ne (eq_lbracket_of_suffix? hway) (by decide)
      have hplace : (d.next .lbracket).place = .operand := if_pos hended
      have hread := finishes_enclosed h rfl (hadmits.room_cons hin _) hp (List.suffix_refl _) hplace
        (Option.map (Expr.index left))
      exact hread.mono fun _ _ hq => hq.mono hin

theorem finishes_suffixRound (left : Expr) (hp : Completed v inside p) :
    Finishes v p (suffixRound expression level left)
      (Round.Keeps (Completed v inside) (Answers v inside)) := by
  refine .peekKind (.ite (fun hlevel => ?_) fun _ => finishes_pure (hp.answers _))
  obtain ⟨c', hpast, hin, hended⟩ := hp
  cases hway : p.peek.kind.suffix? with
  | none => exact finishes_pure (Completed.answers ⟨c', hpast, hin, hended⟩ _)
  | some way =>
      have hplace := hended.resolve_right (TokenKind.ne_eof_of_suffix? hway)
      refine .advance ((finishes_suffix h hadmits hpast.advance hplace hin hway hlevel left).bind ?_)
      intro e q hq
      cases e with
      | none => exact finishes_pure hq
      | some e => exact finishes_pure (hq.2 rfl)

theorem finishes_expressionWith (hat : At v c p)
    (hin : inside <:+ (c.next p.current.kind).openings) :
    Finishes v p (expressionWith expression level) (Answers v inside) := by
  refine (finishes_operand h hadmits hat hin).bind fun found q hq => ?_
  cases found with
  | none => exact finishes_pure hq
  | some left =>
      exact .iterate (Completed v inside) (fun left p hp => finishes_suffixRound h hadmits left hp) _
        (hq.2 rfl)

end Expressions

end Productions

/-- Readers that go deep enough read everything, by induction on how deep they go. -/
theorem copes_expressionWithin [Capacity] (v : Survey) (depth : Nat) :
    Copes v depth (expressionWithin depth) where
  reads := by
    induction depth with
    | zero => exact fun c inside level p hadmits hat _ => absurd hadmits (not_admits_zero hat)
    | succ depth ih =>
        have hcopes : Copes v depth (expressionWithin depth) := ⟨ih, fun _ _ _ _ => KeyIn.of_at depth⟩
        exact fun c inside level p hadmits hat hin => finishes_expressionWith hcopes hadmits hat hin
  keys _ _ _ _ := KeyIn.of_at depth

/-- A program is read to the end of its text, if it nests no deeper than there is room for, and its
numerals have been handled then, or one of them is too long. -/
theorem finishes_program [Capacity] {depth : Nat} (hroom : Room v depth []) (hp : At v .start p) :
    Finishes v p (programWith (expressionWithin depth)) fun _ q =>
      q.current.kind = .eof ∧ ∀ w ∈ v.words, w.kind = .int → Handled w q.errors := by
  have hopen : ∀ kind : TokenKind, false = false → ([] : List Opening).head? ≠ some (.bracket kind) :=
    fun _ _ hhead => by cases hhead
  refine (finishes_statementsUntil (copes_expressionWithin v depth) hroom floor_nil hopen
    ⟨_, hp, List.nil_suffix⟩).bind ?_
  rintro statements q ⟨⟨c, ⟨s, hq, hahead⟩, -⟩, heof⟩
  have heof : q.current.kind = .eof := heof.resolve_right Bool.false_ne_true
  refine finishes_pure ⟨heof, fun w hw hint => ?_⟩
  rw [hq, State.current_reading] at heof
  have hnone : w ∉ s.words := by
    rw [Scanner.words_of_eof heof]
    exact List.not_mem_nil
  exact (hahead.handled w hw hint).resolve_left hnone

section Texts

theorem at_start (source : String) :
    At ⟨wordsOf source.toList, nestingDepth source⟩ .start (.ofString source) :=
  ⟨.ofString source, State.ofString_eq_reading source,
    Nat.le_of_eq (nestingDepth_eq source).symm, List.suffix_refl _, fun _ hw _ => Or.inl hw⟩

theorem mem_wordsOf_iff (source : String) (w : Word) (hint : w.kind = .int) :
    w ∈ wordsOf source.toList ↔ ∃ t ∈ tokenize source, t.word = w := by
  have hmap : (tokenize source).map Token.word = wordsOf source.toList ++ [⟨.eof, ""⟩] :=
    (Scanner.ofString source).map_word_tokens
  have hne : w ≠ ⟨.eof, ""⟩ := by
    rintro rfl
    cases hint
  rw [← List.mem_map, hmap, List.mem_append, List.mem_singleton, or_iff_left hne]

/-- What becomes of a text that nests no deeper than there is room for. -/
theorem finishes_parse [Capacity] {source : String}
    (hroom : 9 * nestingDepth source + 10 ≤ Capacity.nesting) :
    (∀ fault, parse source = .error fault →
      Survey.Stops ⟨wordsOf source.toList, nestingDepth source⟩ fault) ∧
    ∀ parsed, parse source = .ok parsed →
      ∀ w ∈ wordsOf source.toList, w.kind = .int → Handled w parsed.errors := by
  have hroom : Room ⟨wordsOf source.toList, nestingDepth source⟩ Capacity.nesting [] := hroom
  have hprogram := finishes_program hroom (at_start source)
  change Finishes _ _ program _ at hprogram
  rw [Finishes] at hprogram
  unfold parse
  cases hrun : program.run (.ofString source) with
  | error fault =>
      rw [hrun] at hprogram
      refine ⟨fun _ hfault => ?_, fun _ hparsed => ?_⟩
      · exact Except.error.inj hfault ▸ hprogram
      · cases hparsed
  | ok result =>
      rw [hrun] at hprogram
      refine ⟨fun _ hfault => ?_, fun _ hparsed => ?_⟩
      · cases hfault
      · exact Except.ok.inj hparsed ▸ hprogram.2

/-- Let a host have room for nine expressions inside each other for every level of nesting in a text, and ten
more, and for the look-up of every key in it.  The text is parsed, whatever syntax errors there are in it,
unless it has a numeral that is too long.  Every numeral in it that denotes too large an integer is reported:
there is no token of a numeral that is not read as an expression. -/
theorem parse_of_nestingDepth_le [Capacity] (source : String)
    (hroom : 9 * nestingDepth source + 10 ≤ Capacity.nesting)
    (hkeys : ∀ e, KeyIn (wordsOf source.toList) e → Capacity.hashable e = true) :
    ((∃ parsed, parse source = .ok parsed) ↔
      ∀ t ∈ tokenize source, t.kind = .int → t.text.length ≤ longestNumeral) ∧
    ∀ parsed, parse source = .ok parsed → ∀ t ∈ tokenize source, t.kind = .int →
      maxInteger < (Nat.ofDigitChars 10 t.text.toList 0 : Int) →
      "could not parse " ++ t.text ++ " as integer" ∈ parsed.errors.map SyntaxError.message := by
  obtain ⟨hstops, hhandled⟩ := finishes_parse hroom
  have hread : ∀ parsed, parse source = .ok parsed → ∀ t ∈ tokenize source, t.kind = .int →
      Handled t.word parsed.errors := fun parsed hparsed t ht hint =>
    hhandled parsed hparsed t.word ((mem_wordsOf_iff source t.word hint).mpr ⟨t, ht, rfl⟩) hint
  refine ⟨⟨?_, fun hshort => ?_⟩, fun parsed hparsed t ht hint hlarge => ?_⟩
  · rintro ⟨parsed, hparsed⟩ t ht hint
    exact (hread parsed hparsed t ht hint).1
  · cases hparse : parse source with
    | ok parsed => exact ⟨parsed, rfl⟩
    | error fault =>
        have hstopped := hstops fault hparse
        cases fault with
        | numeralTooLong =>
            obtain ⟨w, hw, hint, hlong⟩ := hstopped
            obtain ⟨t, ht, rfl⟩ := (mem_wordsOf_iff source w hint).mp hw
            exact absurd (hshort t ht hint) (Nat.not_le_of_lt hlong)
        | nestedTooDeeply =>
            obtain ⟨e, hkey, hhash⟩ := hstopped
            rw [hkeys e hkey] at hhash
            cases hhash
  · exact List.mem_map_of_mem ((hread parsed hparsed t ht hint).2 hlarge)

/-- A text with several syntax errors, and with a key in it, is parsed, and the integer in it is reported. -/
theorem parse_of_nestingDepth_le_malformed :
    let source := "let = [9223372036854775808, {1 + 2: 3}, (; -) { if ( }"
    9 * nestingDepth source + 10 ≤ maxNesting ∧ ∃ parsed, parse source = .ok parsed ∧
      "could not parse 9223372036854775808 as integer" ∈ parsed.errors.map SyntaxError.message := by
  intro source
  have hroom : 9 * nestingDepth source + 10 ≤ maxNesting := by decide +kernel
  have hshort : ∀ t ∈ tokenize source, t.kind = .int → t.text.length ≤ longestNumeral := by
    decide +kernel
  have hlarge : ∃ t ∈ tokenize source, t.kind = .int ∧ t.text = "9223372036854775808" := by
    decide +kernel
  obtain ⟨hreturns, hreported⟩ := parse_of_nestingDepth_le source hroom fun _ _ => rfl
  obtain ⟨parsed, hparsed⟩ := hreturns.mpr hshort
  obtain ⟨t, ht, hint, htext⟩ := hlarge
  have hmessage := hreported parsed hparsed t ht hint (by rw [htext]; decide +kernel)
  rw [htext] at hmessage
  exact ⟨hroom, parsed, hparsed, hmessage⟩

/-- A text that is one numeral nests nowhere, and is not parsed if it is too long. -/
theorem parse_of_digits {run : List Char} (hrun : run.all isDigit = true)
    (hlong : longestNumeral < run.length) :
    nestingDepth (String.ofList run) = 0 ∧ parse (String.ofList run) = .error .numeralTooLong := by
  have hne : run ≠ [] := by
    rintro rfl
    cases hlong
  have hwords : wordsOf (String.ofList run).toList = [⟨.int, String.ofList run⟩] := by
    have hdigits : wordsOf (run ++ []) = ⟨.int, String.ofList run⟩ :: wordsOf [] :=
      wordsOf_digits hne hrun fun c hc => by cases hc
    rw [List.append_nil, wordsOf_nil] at hdigits
    rw [String.toList_ofList, hdigits]
  have hdepth : nestingDepth (String.ofList run) = 0 := by
    rw [nestingDepth_eq, hwords]
    rfl
  refine ⟨hdepth, ?_⟩
  have hroom : 9 * nestingDepth (String.ofList run) + 10 ≤ Capacity.nesting := by
    rw [hdepth]
    decide
  obtain ⟨hstops, hhandled⟩ := finishes_parse hroom
  cases hparse : parse (String.ofList run) with
  | error fault =>
      cases fault with
      | numeralTooLong => rfl
      | nestedTooDeeply =>
          obtain ⟨e, -, hhash⟩ := hstops _ hparse
          cases hhash
  | ok parsed =>
      have hword : ⟨.int, String.ofList run⟩ ∈ wordsOf (String.ofList run).toList := by
        rw [hwords]
        exact List.mem_singleton_self _
      have hshort : (String.ofList run).length ≤ longestNumeral :=
        (hhandled parsed hparse _ hword rfl).1
      rw [String.length_ofList] at hshort
      omega

/-- Neither brackets nor signs are needed to stop a parser. -/
theorem parse_nines :
    let nines := String.ofList (List.replicate 4301 '9')
    nestingDepth nines ≤ 100 ∧ parse nines = .error .numeralTooLong := by
  have hdigits : (List.replicate 4301 '9').all isDigit = true := by
    rw [List.all_replicate]
    decide
  have hlong : longestNumeral < (List.replicate 4301 '9').length := by
    rw [List.length_replicate]
    decide
  obtain ⟨hdepth, hparse⟩ := parse_of_digits hdigits hlong
  exact ⟨Nat.le_trans (Nat.le_of_eq hdepth) (Nat.zero_le _), hparse⟩

end Texts

end Parser

end Scriptlet
