import Scriptlet.Proofs.Parser.Completeness
import Scriptlet.Proofs.Program.Retrievable
import Scriptlet.Proofs.Scanner.Parts

/-!
# Source text is read back

The text of a program is read as that program.

**The invariant.**  `Legible n φ text`: the text spells words that are understood as the phrase `φ` by
readers of expressions nested at most `n` deep.  What the scanner finds and what the parser makes of
it are carried together, so that every way of putting a text together needs one lemma.

**Where statements end.**  Bindings and returns end in a semicolon.  An expression on its own ends
where the block or the text does (`understood_lastStatement`), and so it can only come last.

**Results.**
* `legible_expression`, `legible_statements` and their companions: the text of a phrase is legible, by
  recursion on the phrase.
* `parse_source`: a well-formed program that can be got back from its text is read back from it,
  without errors, unless its expressions are nested too deeply.
-/

namespace Scriptlet

namespace Parser

open Step

/-- The text spells words that are understood as the phrase. -/
def Legible (n : Nat) (φ : Form) (text : String) : Prop :=
  ∃ ws, Spells text ws ∧ Understood n φ ws

section Leaves

variable {n : Nat} {e : Expr}

/-- What is written as one lexeme is legible if the lexeme spells its word. -/
theorem legible_of_writes {lexeme : String} (he : e.wellFormed = true)
    (hw : Writes n (.expression e) [lexeme]) (hspells : Spells lexeme [wordOf lexeme]) :
    Legible n (.expression e) lexeme :=
  ⟨_, hspells, understood_of_writes hw he⟩

theorem spells_name {name : String} (h : isName name = true) : Spells name [wordOf name] := by
  simp only [isName, Bool.and_eq_true, decide_eq_true_eq, ne_eq] at h
  obtain ⟨⟨hne, hletters⟩, -⟩ := h
  rw [(solid_of_letters hne hletters).2]
  exact spells_letters hne hletters

theorem legible_boolean (value : Bool) :
    Legible n (.expression (.boolean value)) (if value then "true" else "false") := by
  refine legible_of_writes rfl .boolean ?_
  cases value with
  | false => exact spells_letters (by decide) rfl
  | true => exact spells_letters (by decide) rfl

/-- A number of the language is written in few enough digits, which denote it. -/
theorem isNumeral_toString {value : Nat} (h : (value : Int) ≤ maxInteger) :
    IsNumeral (toString value) value := by
  have htext : (toString value).toList = Nat.toDigits 10 value := by
    rw [Nat.toString_eq_ofList_toDigits, String.toList_ofList]
  have hlength : (Nat.toDigits 10 value).length ≤ 19 := by
    rw [Nat.length_toDigits_le_iff (by decide) (by decide)]
    have hmax : maxInteger < 10 ^ 19 := by decide
    omega
  refine ⟨?_, ?_, ?_, ?_⟩
  · intro hempty
    rw [hempty] at htext
    exact Nat.toDigits_ne_nil htext.symm
  · rw [htext, List.all_eq_true]
    intro c hc
    exact Nat.isDigit_of_mem_toDigits (by decide) (by decide) hc
  · rw [← String.length_toList, htext]
    exact Nat.le_trans hlength (by decide)
  · rw [htext, Nat.ofDigitChars_ten_toDigits]

theorem legible_integer {value : Int} (h : (Expr.integer value).wellFormed = true) :
    Legible n (.expression (.integer value)) (toString value) := by
  have hrange : 0 ≤ value ∧ value ≤ maxInteger := by
    simpa [Expr.wellFormed] using h
  obtain ⟨digits, rfl⟩ := Int.eq_ofNat_of_zero_le hrange.1
  have hnumeral := isNumeral_toString hrange.2
  have hspells := spells_digits hnumeral.1 hnumeral.2.1
  rw [← (solid_of_isNumeral hnumeral).2] at hspells
  exact legible_of_writes h (.integer hnumeral) hspells

end Leaves

section Marks

theorem marks_blank : Marks " " [] :=
  marks_of_symbols rfl (by decide)

theorem marks_lparen : Marks "(" [⟨.lparen, "("⟩] :=
  marks_of_symbols rfl (by decide)

theorem marks_rparen : Marks ")" [⟨.rparen, ")"⟩] :=
  marks_of_symbols rfl (by decide)

theorem marks_lbracket : Marks "[" [⟨.lbracket, "["⟩] :=
  marks_of_symbols rfl (by decide)

theorem marks_rbracket : Marks "]" [⟨.rbracket, "]"⟩] :=
  marks_of_symbols rfl (by decide)

theorem marks_comma : Marks ", " [⟨.comma, ","⟩] :=
  marks_of_symbols rfl (by decide)

theorem marks_colon : Marks ": " [⟨.colon, ":"⟩] :=
  marks_of_symbols rfl (by decide)

theorem marks_semicolon : Marks ";" [⟨.semicolon, ";"⟩] :=
  marks_of_symbols rfl (by decide)

/-- The equals sign of a binding stands alone: a blank follows it. -/
theorem marks_equals : Marks " = " [⟨.assign, "="⟩] := by
  refine ⟨?_, _, _, rfl, rfl, rfl⟩
  intro after
  show wordsOf (' ' :: '=' :: ' ' :: after) = _
  rw [wordsOf_space rfl, wordsOf_paired (c := '=') rfl (by simp), wordsOf_space rfl]
  rfl

theorem sealed_let : Sealed "let " [⟨.letWord, "let"⟩] := by
  have htext : "let" ++ " " = "let " := by decide
  exact sealed_letters (by decide) rfl marks_blank htext

theorem sealed_return : Sealed "return " [⟨.returnWord, "return"⟩] := by
  have htext : "return" ++ " " = "return " := by decide
  exact sealed_letters (by decide) rfl marks_blank htext

theorem sealed_fn : Sealed "fn(" [⟨.functionWord, "fn"⟩, ⟨.lparen, "("⟩] := by
  have htext : "fn" ++ "(" = "fn(" := by decide
  exact sealed_letters (by decide) rfl marks_lparen htext

theorem sealed_binary {op : String} (hop : op ∈ binaryOperators) : Sealed op [wordOf op] := by
  simp only [binaryOperators, List.mem_cons, List.not_mem_nil, or_false] at hop
  rcases hop with rfl | rfl | rfl | rfl | rfl | rfl | rfl | rfl
  · exact sealed_marks rfl
  · exact sealed_marks rfl
  · exact sealed_marks rfl
  · exact sealed_marks rfl
  · exact sealed_marks rfl
  · exact sealed_marks rfl
  · exact wordsOf_doubled (c := '=') rfl
  · exact wordsOf_doubled (c := '!') rfl

end Marks

section Operations

variable {n : Nat} {e : Expr} {text rightText : String}

/-- A text that an expression starts is neither empty nor starts with an equals sign. -/
theorem exists_cons_of_opens {ws : List Word} (h : Spells text ws) (hopens : Opens ws) :
    ∃ c cs, text.toList = c :: cs ∧ c ≠ '=' := by
  rw [← h.wordsOf_toList] at hopens
  cases htext : text.toList with
  | nil =>
      rw [htext, wordsOf_nil] at hopens
      cases hopens
  | cons c cs =>
      refine ⟨c, cs, rfl, ?_⟩
      rintro rfl
      rw [htext] at hopens
      by_cases hcs : cs.head? = some '='
      · obtain ⟨rest, rfl⟩ := List.head?_eq_some_iff.mp hcs
        rw [wordsOf_doubled (c := '=') rfl] at hopens
        cases hopens
      · rw [wordsOf_paired (c := '=') rfl hcs] at hopens
        cases hopens

/-- An operator in front of an operand stands alone: no operand starts with an equals sign. -/
theorem spells_unary {op : String} {ws : List Word} (hop : op ∈ unaryOperators)
    (h : Spells text ws) (hopens : Opens ws) : Spells (op ++ text) (wordOf op :: ws) := by
  intro after hafter
  obtain ⟨c, cs, htext, hc⟩ := exists_cons_of_opens h hopens
  have hhead : (text.toList ++ after).head? ≠ some '=' := by
    rw [htext]
    simpa using hc
  rw [String.toList_append, List.append_assoc, List.cons_append, ← h after hafter]
  simp only [unaryOperators, List.mem_cons, List.not_mem_nil, or_false] at hop
  rcases hop with rfl | rfl
  · exact wordsOf_paired (c := '!') rfl hhead
  · exact wordsOf_symbol (c := '-') rfl _

/-- What stands in parentheses. -/
theorem legible_grouped {ws : List Word} (hws : Spells text ws)
    (h : ∀ rest, kindAhead rest = .rparen →
      Takes (expressionWithin (n + 1) .lowest) (ws ++ rest) (some e) rest) :
    Legible (n + 1) (.expression e) ("(" ++ text ++ ")") := by
  have hwhole := (marks_lparen.1.append_spells hws).append_marks marks_rparen
  exact ⟨_, hwhole.spells, understood_grouped h⟩

theorem legible_unary {op : String} (hop : op ∈ unaryOperators)
    (h : Legible n (.expression e) text) :
    Legible (n + 2) (.expression (.unary op e)) ("(" ++ op ++ text ++ ")") := by
  obtain ⟨ws, hws, h⟩ := h
  obtain ⟨hname, hkind⟩ := kind_of_unaryOperator hop
  have hoperation := understood_unary hkind h
  rw [hname] at hoperation
  have hgrouped := legible_grouped (spells_unary hop hws h.1) hoperation.2
  rw [← String.append_assoc] at hgrouped
  exact hgrouped

theorem legible_binary {op : String} {right : Expr} (hop : op ∈ binaryOperators)
    (hleft : Legible (n + 1) (.expression e) text)
    (hright : Legible n (.expression right) rightText) :
    Legible (n + 2) (.expression (.binary e op right))
      ("(" ++ text ++ " " ++ op ++ " " ++ rightText ++ ")") := by
  obtain ⟨lefts, hlefts, hleft⟩ := hleft
  obtain ⟨rights, hrights, hright⟩ := hright
  obtain ⟨hname, hkind⟩ := kind_of_binaryOperator hop
  have hoperation := understood_binary hkind hleft hright
  rw [hname] at hoperation
  have hoperator := ((hlefts.append_marks marks_blank).append (sealed_binary hop)).append marks_blank.1
  have hinside := hoperator.append_spells hrights
  simp only [List.append_nil, List.append_assoc, List.singleton_append] at hinside
  have hgrouped := legible_grouped hinside hoperation.2
  simp only [String.append_assoc] at hgrouped ⊢
  exact hgrouped

theorem legible_index {subscript : Expr} (hleft : Legible (n + 1) (.expression e) text)
    (hsubscript : Legible n (.expression subscript) rightText) :
    Legible (n + 2) (.expression (.index e subscript))
      ("(" ++ text ++ "[" ++ rightText ++ "])") := by
  obtain ⟨lefts, hlefts, hleft⟩ := hleft
  obtain ⟨subscripts, hsubscripts, hsubscript⟩ := hsubscript
  have hinside := ((hlefts.append_marks marks_lbracket).append_spells hsubscripts).append_marks
    marks_rbracket
  simp only [List.append_assoc, List.cons_append, List.nil_append] at hinside
  have hgrouped := legible_grouped hinside.spells fun rest hrest =>
    (understood_index hleft hsubscript.whole).2.takes (by decide) (by rw [hrest]; rfl)
      (by rw [hrest]; decide)
  simp only [String.append_assoc] at hgrouped ⊢
  exact hgrouped

end Operations

section Lists

variable {n : Nat} {e : Expr} {es : List Expr} {text rest : String}

theorem legible_noExpressions : Legible n (.expressions []) "" :=
  ⟨[], (sealed_marks rfl).spells, understood_noExpressions⟩

theorem legible_lastExpression (h : Legible n (.expression e) text) :
    Legible n (.expressions [e]) text := by
  obtain ⟨ws, hws, h⟩ := h
  exact ⟨ws, hws, understood_lastExpression h.whole⟩

theorem legible_moreExpressions {next : Expr} (h : Legible n (.expression e) text)
    (hmore : Legible n (.expressions (next :: es)) rest) :
    Legible n (.expressions (e :: next :: es)) (text ++ ", " ++ rest) := by
  obtain ⟨ws, hws, h⟩ := h
  obtain ⟨more, hmores, hmore⟩ := hmore
  have hwhole := (hws.append_marks marks_comma).append_spells hmores
  simp only [List.append_assoc, List.singleton_append] at hwhole
  exact ⟨_, hwhole, understood_moreExpressions h.whole hmore⟩

theorem legible_array (h : Legible n (.expressions es) text) :
    Legible (n + 1) (.expression (.array es)) ("[" ++ text ++ "]") := by
  obtain ⟨ws, hws, h⟩ := h
  have hwhole := (marks_lbracket.1.append_spells hws).append_marks marks_rbracket
  exact ⟨_, hwhole.spells, understood_array h⟩

theorem legible_call (hcallee : Legible (n + 1) (.expression e) text)
    (hes : Legible n (.expressions es) rest) :
    Legible (n + 1) (.expression (.call e es)) (text ++ "(" ++ rest ++ ")") := by
  obtain ⟨callees, hcallees, hcallee⟩ := hcallee
  obtain ⟨ws, hws, hes⟩ := hes
  have hwhole := ((hcallees.append_marks marks_lparen).append_spells hws).append_marks marks_rparen
  simp only [List.append_assoc, List.cons_append, List.nil_append] at hwhole
  exact ⟨_, hwhole.spells, understood_call hcallee hes⟩

end Lists

section Pairs

variable {n : Nat} {key value : Expr} {ps : List (Expr × Expr)} {keyText valueText rest : String}

theorem legible_noPairs : Legible n (.pairs []) "" :=
  ⟨[], (sealed_marks rfl).spells, understood_noPairs⟩

section Key

variable (hkey : Legible n (.expression key) keyText) (hvalue : Legible n (.expression value) valueText)
include hkey hvalue

theorem legible_lastPair : Legible n (.pairs [(key, value)]) (keyText ++ ": " ++ valueText) := by
  obtain ⟨ws, hws, hkey⟩ := hkey
  obtain ⟨values, hvalues, hvalue⟩ := hvalue
  have hwhole := (hws.append_marks marks_colon).append_spells hvalues
  simp only [List.append_assoc, List.singleton_append] at hwhole
  exact ⟨_, hwhole, understood_lastPair hkey hvalue⟩

theorem legible_morePairs (hmore : Legible n (.pairs ps) rest) :
    Legible n (.pairs ((key, value) :: ps)) (keyText ++ ": " ++ valueText ++ ", " ++ rest) := by
  obtain ⟨ws, hws, hkey⟩ := hkey
  obtain ⟨values, hvalues, hvalue⟩ := hvalue
  obtain ⟨more, hmores, hmore⟩ := hmore
  have hpair := (hws.append_marks marks_colon).append_spells hvalues
  have hwhole := (hpair.append_marks marks_comma).append_spells hmores
  simp only [List.append_assoc, List.singleton_append] at hwhole
  exact ⟨_, hwhole, understood_morePairs hkey hvalue hmore⟩

end Key

theorem legible_hash (hnodup : (ps.map Prod.fst).Nodup) (h : Legible n (.pairs ps) rest) :
    Legible (n + 1) (.expression (.hash ps)) ("\x7b" ++ rest ++ "\x7d") := by
  obtain ⟨ws, hws, h⟩ := h
  have hopening : Marks "\x7b" [⟨.lbrace, "\x7b"⟩] := marks_of_symbols rfl (by decide)
  have hclosing : Marks "\x7d" [⟨.rbrace, "\x7d"⟩] := marks_of_symbols rfl (by decide)
  have hwhole := (hopening.1.append_spells hws).append_marks hclosing
  exact ⟨_, hwhole.spells, understood_hash hnodup h⟩

end Pairs

section Blocks

variable {n : Nat} {e : Expr} {body : Block} {name text rest : String}

/-- The statement is legible, whatever text comes after it. -/
def LegibleFirst (n : Nat) (s : Stmt) (text : String) : Prop :=
  ∃ ws, Sealed text ws ∧ Understood n (.statement s) ws

theorem legibleFirst_bind (hname : isName name = true) (h : Legible n (.expression e) text) :
    LegibleFirst n (.bind name e) ("let " ++ name ++ " = " ++ text ++ ";") := by
  obtain ⟨ws, hws, h⟩ := h
  have hequals := (sealed_let.append_spells (spells_name hname)).append_marks marks_equals
  have hwhole := (hequals.append_spells hws).append_marks marks_semicolon
  rw [(solid_of_isName hname).2] at hwhole
  exact ⟨_, hwhole, understood_bind h⟩

theorem legibleFirst_ret (h : Legible n (.expression e) text) :
    LegibleFirst n (.ret e) ("return " ++ text ++ ";") := by
  obtain ⟨ws, hws, h⟩ := h
  exact ⟨_, (sealed_return.append_spells hws).append_marks marks_semicolon, understood_ret h⟩

theorem legible_noStatements : Legible n (.statements []) "" :=
  ⟨[], (sealed_marks rfl).spells, understood_noStatements⟩

theorem legible_lastStatement (h : Legible n (.expression e) text) :
    Legible n (.statements [.expr e]) text := by
  obtain ⟨ws, hws, h⟩ := h
  exact ⟨ws, hws, understood_lastStatement h.whole⟩

theorem legible_moreStatements {s : Stmt} (h : LegibleFirst n s text)
    (hmore : Legible n (.statements body) rest) :
    Legible n (.statements (s :: body)) (text ++ rest) := by
  obtain ⟨ws, hws, h⟩ := h
  obtain ⟨more, hmores, hmore⟩ := hmore
  exact ⟨_, hws.append_spells hmores, understood_moreStatements h hmore⟩

theorem spells_names : (names : List String) → names.all isName = true →
    Spells (commaSeparated names) ((names.intersperse ",").map wordOf)
  | [], _ => (sealed_marks rfl).spells
  | [name], h => by
      rw [List.all_cons, Bool.and_eq_true] at h
      exact spells_name h.1
  | name :: next :: names, h => by
      rw [List.all_cons, Bool.and_eq_true] at h
      exact ((spells_name h.1).append_marks marks_comma).append_spells (spells_names _ h.2)

theorem legible_function {names : List String} (hnames : names.all isName = true)
    (h : Legible n (.statements body) text) :
    Legible (n + 1) (.expression (.function names body))
      ("fn(" ++ commaSeparated names ++ ")\x7b " ++ text ++ " \x7d") := by
  obtain ⟨ws, hws, h⟩ := h
  have hopening : Marks ")\x7b " [⟨.rparen, ")"⟩, ⟨.lbrace, "\x7b"⟩] :=
    marks_of_symbols rfl (by decide)
  have hclosing : Marks " \x7d" [⟨.rbrace, "\x7d"⟩] := marks_of_symbols rfl (by decide)
  have hparameters := (sealed_fn.append_spells (spells_names names hnames)).append_marks hopening
  have hwhole := (hparameters.append_spells hws).append_marks hclosing
  simp only [List.append_assoc, List.cons_append, List.nil_append] at hwhole
  exact ⟨_, hwhole.spells, understood_function h fun _ => reads_parameterNames hnames⟩

end Blocks

/-! ### The texts of phrases -/

mutual

/-- The text of an expression is legible to readers that go as deep as its expressions nest. -/
theorem legible_expression : (e : Expr) → e.wellFormed = true → e.retrievable = true →
    ∀ n, e.nesting ≤ n → Legible n (.expression e) e.source
  | .ident name, hwf, _, n, _ => legible_of_writes hwf .ident (spells_name hwf)
  | .integer value, hwf, _, n, _ => legible_integer hwf
  | .boolean value, _, _, n, _ => legible_boolean value
  | .unary op right, hwf, hr, n, hn => by
      simp only [Expr.wellFormed, Bool.and_eq_true, decide_eq_true_eq] at hwf
      rw [Expr.nesting] at hn
      -- The parentheses take one level and the operator another.
      obtain ⟨m, rfl⟩ : ∃ m, n = m + 2 := ⟨n - 2, by omega⟩
      exact legible_unary hwf.1 (legible_expression right hwf.2 hr m (by omega))
  | .binary left op right, hwf, hr, n, hn => by
      simp only [Expr.wellFormed, Bool.and_eq_true, decide_eq_true_eq] at hwf
      rw [Expr.retrievable, Bool.and_eq_true] at hr
      rw [Expr.nesting] at hn
      obtain ⟨m, rfl⟩ : ∃ m, n = m + 2 := ⟨n - 2, by omega⟩
      exact legible_binary hwf.1.1 (legible_expression left hwf.1.2 hr.1 (m + 1) (by omega))
        (legible_expression right hwf.2 hr.2 m (by omega))
  | .function names body, hwf, hr, n, hn => by
      rw [Expr.wellFormed, Bool.and_eq_true] at hwf
      rw [Expr.nesting] at hn
      obtain ⟨m, rfl⟩ : ∃ m, n = m + 1 := ⟨n - 1, by omega⟩
      exact legible_function hwf.1 (legible_statements body hwf.2 hr m (by omega))
  | .call callee arguments, hwf, hr, n, hn => by
      rw [Expr.wellFormed, Bool.and_eq_true] at hwf
      rw [Expr.retrievable, Bool.and_eq_true] at hr
      rw [Expr.nesting] at hn
      obtain ⟨m, rfl⟩ : ∃ m, n = m + 1 := ⟨n - 1, by omega⟩
      -- What is called takes no level of its own: the parser has read it and goes on with the arguments.
      exact legible_call (legible_expression callee hwf.1 hr.1 (m + 1) (by omega))
        (legible_expressions arguments hwf.2 hr.2 m (by omega))
  | .array elements, hwf, hr, n, hn => by
      rw [Expr.nesting] at hn
      obtain ⟨m, rfl⟩ : ∃ m, n = m + 1 := ⟨n - 1, by omega⟩
      exact legible_array (legible_expressions elements hwf hr m (by omega))
  | .index left subscript, hwf, hr, n, hn => by
      rw [Expr.wellFormed, Bool.and_eq_true] at hwf
      rw [Expr.retrievable, Bool.and_eq_true] at hr
      rw [Expr.nesting] at hn
      obtain ⟨m, rfl⟩ : ∃ m, n = m + 2 := ⟨n - 2, by omega⟩
      exact legible_index (legible_expression left hwf.1 hr.1 (m + 1) (by omega))
        (legible_expression subscript hwf.2 hr.2 m (by omega))
  | .hash pairs, hwf, hr, n, hn => by
      simp only [Expr.wellFormed, Bool.and_eq_true, decide_eq_true_eq] at hwf
      rw [Expr.nesting] at hn
      obtain ⟨m, rfl⟩ : ∃ m, n = m + 1 := ⟨n - 1, by omega⟩
      exact legible_hash hwf.1 (legible_pairs pairs hwf.2 hr m (by omega))

theorem legible_expressions : (es : List Expr) → Expr.wellFormedAll es = true →
    Expr.retrievableAll es = true → ∀ n, Expr.nestingAll es ≤ n →
    Legible n (.expressions es) (commaSeparated (Expr.sources es))
  | [], _, _, n, _ => legible_noExpressions
  | [e], hwf, hr, n, hn => by
      rw [Expr.wellFormedAll, Bool.and_eq_true] at hwf
      rw [Expr.retrievableAll, Bool.and_eq_true] at hr
      rw [Expr.nestingAll] at hn
      exact legible_lastExpression (legible_expression e hwf.1 hr.1 n (by omega))
  | e :: next :: es, hwf, hr, n, hn => by
      rw [Expr.wellFormedAll, Bool.and_eq_true] at hwf
      rw [Expr.retrievableAll, Bool.and_eq_true] at hr
      rw [Expr.nestingAll] at hn
      exact legible_moreExpressions (legible_expression e hwf.1 hr.1 n (by omega))
        (legible_expressions (next :: es) hwf.2 hr.2 n (by omega))

theorem legible_pairs : (ps : List (Expr × Expr)) → Expr.wellFormedPairs ps = true →
    Expr.retrievablePairs ps = true → ∀ n, Expr.nestingPairs ps ≤ n →
    Legible n (.pairs ps) (commaSeparated (Expr.pairSources ps))
  | [], _, _, n, _ => legible_noPairs
  | [(key, value)], hwf, hr, n, hn => by
      simp only [Expr.wellFormedPairs, Bool.and_eq_true] at hwf
      simp only [Expr.retrievablePairs, Bool.and_eq_true] at hr
      rw [Expr.nestingPairs] at hn
      exact legible_lastPair (legible_expression key hwf.1.1 hr.1.1 n (by omega))
        (legible_expression value hwf.1.2 hr.1.2 n (by omega))
  | (key, value) :: next :: ps, hwf, hr, n, hn => by
      rw [Expr.wellFormedPairs, Bool.and_eq_true, Bool.and_eq_true] at hwf
      rw [Expr.retrievablePairs, Bool.and_eq_true, Bool.and_eq_true] at hr
      rw [Expr.nestingPairs] at hn
      exact legible_morePairs (legible_expression key hwf.1.1 hr.1.1 n (by omega))
        (legible_expression value hwf.1.2 hr.1.2 n (by omega))
        (legible_pairs (next :: ps) hwf.2 hr.2 n (by omega))

theorem legible_statements : (body : Block) → Stmt.wellFormedAll body = true →
    Stmt.retrievableAll body = true → ∀ n, Stmt.nestingAll body ≤ n →
    Legible n (.statements body) (Stmt.sourceAll body)
  | [], _, _, n, _ => legible_noStatements
  | .bind name value :: rest, hwf, hr, n, hn => by
      simp only [Stmt.wellFormedAll, Stmt.wellFormed, Bool.and_eq_true] at hwf
      rw [Stmt.retrievableAll, Bool.and_eq_true] at hr
      rw [Stmt.nestingAll, Stmt.nesting] at hn
      exact legible_moreStatements
        (legibleFirst_bind hwf.1.1 (legible_expression value hwf.1.2 hr.1 n (by omega)))
        (legible_statements rest hwf.2 hr.2 n (by omega))
  | .ret value :: rest, hwf, hr, n, hn => by
      simp only [Stmt.wellFormedAll, Stmt.wellFormed, Bool.and_eq_true] at hwf
      rw [Stmt.retrievableAll, Bool.and_eq_true] at hr
      rw [Stmt.nestingAll, Stmt.nesting] at hn
      exact legible_moreStatements
        (legibleFirst_ret (legible_expression value hwf.1 hr.1 n (by omega)))
        (legible_statements rest hwf.2 hr.2 n (by omega))
  | [.expr expression], hwf, hr, n, hn => by
      simp only [Stmt.wellFormedAll, Stmt.wellFormed, Bool.and_true] at hwf
      rw [Stmt.nestingAll, Stmt.nesting] at hn
      -- Nothing comes after it, so nothing is needed to end it.
      have hlast := legible_lastStatement (legible_expression expression hwf hr n (by omega))
      rw [Stmt.sourceAll, Stmt.sourceAll, String.append_empty]
      exact hlast

end

section Programs

variable {n : Nat} {p : Program} {text : String}

theorem reads_of_legible (h : Legible n (.statements p.statements) text) :
    Reads (programWith (expressionWithin (n + 1))) (Scanner.ofString text).words p [] := by
  obtain ⟨ws, hws, hbody⟩ := h
  rw [Scanner.words_eq]
  exact hws.wordsOf_toList ▸ hbody.reads

/-- A text that is read with some room for nesting is read alike, or reading it stops for lack of
room. -/
theorem parse_of_reads_within
    (h : Reads (programWith (expressionWithin n)) (Scanner.ofString text).words p []) :
    (parse text = .ok ⟨p, []⟩ ∨ parse text = .error .nestedTooDeeply) ∧
      (n ≤ maxNesting → parse text = .ok ⟨p, []⟩) := by
  obtain ⟨s, -, hrun⟩ := h _ [] rfl
  rw [← State.ofString_eq_reading] at hrun
  have hless : n ≤ maxNesting → parse text = .ok ⟨p, []⟩ := by
    intro hn
    -- A reader with less room has not stopped, so the parser does the same.
    have happrox : Approximates (programWith (expressionWithin n)) program :=
      programWith_approximates (expressionWithin_approximates hn)
    rcases happrox (.ofString text) with hstop | hsame
    · rw [hrun] at hstop
      cases hstop
    · rw [parse, ← hsame, hrun]
      rfl
  refine ⟨?_, hless⟩
  rcases Nat.le_total n maxNesting with hn | hn
  · exact Or.inl (hless hn)
  · have happrox : Approximates program (programWith (expressionWithin n)) :=
      programWith_approximates (expressionWithin_approximates hn)
    rcases happrox (.ofString text) with hstop | hsame
    · right
      rw [parse, hstop]
    · left
      rw [parse, hsame, hrun]
      rfl

/-- A well-formed program that can be got back from its text has a text, and the text is read as that
program, without errors; only nesting that is too deep can keep it from being read. -/
theorem parse_source (hp : p.wellFormed = true) (hr : p.retrievable = true) :
    (Node.program p).render = .ok p.source ∧
      (parse p.source = .ok ⟨p, []⟩ ∨ parse p.source = .error .nestedTooDeeply) ∧
      (p.nesting < maxNesting → parse p.source = .ok ⟨p, []⟩) := by
  have hlegible := legible_statements p.statements hp hr p.nesting (Nat.le_refl _)
  exact ⟨Program.render_of_wellFormed hp, parse_of_reads_within (reads_of_legible hlegible)⟩

end Programs

/-- Operators that touch their operands, an empty hash literal, an empty block, a call of what is
called, and a statement right after the semicolon of another. -/
theorem parse_source_nested :
    let p : Program :=
      ⟨[.bind "f" (.function ["a", "b"] [.bind "c" (.unary "-" (.integer 7)),
          .ret (.binary (.ident "a") "==" (.unary "!" (.ident "c"))), .expr (.function [] [])]),
        .ret (.boolean true),
        .expr (.index (.hash
          [(.integer 1, .array [.call (.call (.ident "f") [.ident "x", .integer 0]) []]),
            (.unary "!" (.unary "!" (.ident "x")), .hash [])]) (.integer 1))]⟩
    p.wellFormed = true ∧ p.retrievable = true ∧
      p.source = "let f = fn(a, b)\x7b let c = (-7);return (a == (!c));fn()\x7b  \x7d \x7d;" ++
        "return true;(\x7b1: [f(x, 0)()], (!(!x)): \x7b\x7d\x7d[1])" ∧
      (Node.program p).render = .ok p.source ∧ parse p.source = .ok ⟨p, []⟩ := by
  intro p
  have hp : p.wellFormed = true := by decide +kernel
  have hr : p.retrievable = true := by decide
  obtain ⟨hrender, -, hparse⟩ := parse_source hp hr
  exact ⟨hp, hr, by decide +kernel, hrender, hparse (by decide)⟩

end Parser

end Scriptlet
