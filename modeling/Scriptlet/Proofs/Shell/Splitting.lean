import Scriptlet.Proofs.Parser.Layout
import Scriptlet.Proofs.Parser.Prefixes
import Scriptlet.Proofs.Scanner.Joining
import Scriptlet.Proofs.Shell.OpenBlocks

/-!
# Running a text in two parts

A text may be cut in two after a semicolon where no bracket is open, and its parts be run one after the
other.

**Reading.**  The words of the whole are those of the parts (`wordsOf_append_of_semicolon`).  The
first part leaves no block open, so its statements are read up to a brace as up to the end of the text,
and then they are read so whatever comes after them (`yields_statements_reached`).  From there on
the loop does what it would do for the second part alone, only with the first statements before the
others (`run_statements_append`).

**Evaluation.**  Statements that all complete hand on nothing but the heap, as one run does to the next.

**Results.**
* `parse_append`: the whole is read as the statements of the first part and then those of the second.
* `clean_text_before`: so it is also where the second part has errors or cannot be read at all.
* `run_append_of_completes`: the whole runs as the second part does after the first.
-/

namespace Scriptlet

namespace Parser

open Step

section Statements

variable {expression : Reader} {ends : TokenKind → Bool}

/-- What a round over statements comes to if others were read before. -/
def Step.Round.after (first : Block) : Round Block Block → Round Block Block
  | .again read => .again (first ++ read)
  | .done read => .done (first ++ read)

theorem run_statementRound_append (first read : Block) (p : State) :
    (statementRound expression ends (first ++ read)).run p =
      ((statementRound expression ends read).run p).map fun r => (r.1.after first, r.2) := by
  simp only [statementRound, current, run_bind, run_inspect]
  split
  · rfl
  · simp only [run_bind]
    cases (statementWith expression).run p with
    | error fault => rfl
    | ok result =>
        obtain ⟨s, q⟩ := result
        simp only [run_advance, run_pure, List.append_assoc]
        rfl

/-- Statements read before do not change how the loop goes on, by induction along the loop. -/
theorem run_statements_append (first read : Block) (p : State) :
    (iterate (statementRound expression ends) (statementRound_shrinks expression ends)
        (first ++ read)).run p =
      ((iterate (statementRound expression ends) (statementRound_shrinks expression ends)
        read).run p).map fun r => (first ++ r.1, r.2) := by
  show _ = (iterateRun _ _ read p).map _
  fun_induction iterateRun (statementRound expression ends) (statementRound_shrinks expression ends)
    read p with
  | case1 read p fault hr =>
      rw [run_iterate, run_statementRound_append, hr]
      rfl
  | case2 read p body q hr =>
      rw [run_iterate, run_statementRound_append, hr]
      rfl
  | case3 read p read' q hr ih =>
      rw [run_iterate, run_statementRound_append, hr]
      exact ih

end Statements

/-- The statements of a text of depth zero that ends in a semicolon are read whatever comes after. -/
theorem reaches_of_parse {a : String} {p : Program} (ha : parse a = .ok ⟨p, []⟩)
    (hdepth : openDepth a = 0) (hends : endsInSemicolon a.toList = true) :
    Reaches expression [] p.statements (wordsOf a.toList) := by
  have hreads := reads_braced_of_openDepth ha hdepth 1
  have hwords := words_closed ha 1
  rw [← hwords] at hreads
  have hyields := yields_statements_reached (finds_expressionWithin maxNesting)
    (nearsighted_expressionWithin maxNesting)
    (built_statementWith (built_expressionWithin maxNesting)).nearsighted []
  obtain ⟨used, hused, hreaches⟩ := hyields.of_reads hreads
  rw [hwords] at hused
  obtain rfl := List.append_cancel_right hused
  refine hreaches (List.cons_ne_nil _ _) ?_
  intro w hw
  rw [endsInSemicolon, Option.mem_def.mp hw] at hends
  exact of_decide_eq_true hends

/-- A text of depth zero that is read without errors and ends in a semicolon can be followed by any
other text.  What comes after it is read as it would be on its own, with all its errors and faults. -/
theorem parse_append {a : String} {p : Program} (ha : parse a = .ok ⟨p, []⟩)
    (hdepth : openDepth a = 0) (hends : endsInSemicolon a.toList = true) (b : String) :
    parse (a ++ b) =
      (parse b).map fun parsed => ⟨⟨p.statements ++ parsed.program.statements⟩, parsed.errors⟩ := by
  have hwords : (Scanner.ofString (a ++ b)).words = wordsOf a.toList ++ wordsOf b.toList := by
    rw [← wordsOf_append_of_semicolon hends, ← String.toList_append]
    rfl
  obtain ⟨s, hs, hrun⟩ := reaches_of_parse ha hdepth hends _ _ [] hwords
  rw [← List.append_nil p.statements, run_statements_append] at hrun
  have hwhole : program.run (.reading (.ofString (a ++ b)) []) =
      (program.run (.reading s [])).map fun r => (⟨p.statements ++ r.1.statements⟩, r.2) := by
    rw [program, programWith, run_bind, run_bind, statementsUntil, hrun]
    cases (iterate (statementRound expression fun _ => false) _ []).run (.reading s []) with
    | error fault => rfl
    | ok result => rfl
  have halike := blind_program _ _ (State.alike_reading (t := .ofString b) hs [])
  have hsame := SameOutcome.map_eq halike fun q errors =>
    (⟨⟨p.statements ++ q.statements⟩, errors⟩ : Parsed)
  rw [parse_eq, parse_eq, hwhole]
  change _ <$> _ <$> program.run _ = _ <$> _ <$> program.run _
  rw [← comp_map, ← comp_map]
  exact hsame

/-- Let `a` be read without errors, have depth zero and end in a semicolon.  Then it has no influence on
how a text after it is read, whatever that is: if `b` is read, then `a` with `b` after it is read as the
statements of `a` and then those of `b`, with the errors of `b`, and a fault of `b` stays the same. -/
theorem clean_text_before {a : String} {p : Program} (ha : parse a = .ok ⟨p, []⟩)
    (hdepth : openDepth a = 0) (hends : endsInSemicolon a.toList = true) (b : String) :
    (∀ parsed, parse b = .ok parsed →
      parse (a ++ b) = .ok ⟨⟨p.statements ++ parsed.program.statements⟩, parsed.errors⟩) ∧
    ∀ fault, parse b = .error fault → parse (a ++ b) = .error fault := by
  have hwhole := parse_append ha hdepth hends b
  constructor
  · intro parsed hb
    rw [hwhole, hb]
    rfl
  · intro fault hb
    rw [hwhole, hb]
    rfl

/-- The second text starts with a closing brace and `else`, and ends inside a string. -/
theorem clean_text_before_malformed :
    let a := "let f = fn(x) \x7b x \x7d; \"(\";"
    let b := "\x7d else f(1; let y = [2]; \"open"
    openDepth a = 0 ∧ (parse b).toOption.map Parsed.errors = some [.noExpression .rbrace,
        .noExpression .elseWord, .expected .rparen .semicolon, .noExpression .illegal] ∧
      (parse (a ++ b)).toOption.map Parsed.errors = (parse b).toOption.map Parsed.errors := by
  intro a b
  have ha : parse a = .ok ⟨⟨[.bind "f" (.function ["x"] [.expr (.ident "x")]),
      .expr (.string "(")]⟩, []⟩ := eq_ok_of_toOption (by decide +kernel)
  have hdepth : openDepth a = 0 := by decide +kernel
  have herrors : (parse b).toOption.map Parsed.errors = some [.noExpression .rbrace,
      .noExpression .elseWord, .expected .rparen .semicolon, .noExpression .illegal] := by decide +kernel
  refine ⟨hdepth, herrors, ?_⟩
  cases hb : parse b with
  | error fault =>
      rw [hb] at herrors
      cases herrors
  | ok parsed =>
      rw [(clean_text_before ha hdepth (by decide +kernel) b).1 parsed hb]
      rfl

end Parser

section Completion

/-- Whether statements all complete, each with a value that is neither an error nor returned. -/
def Stmt.completesAll (call : Caller) (scope : ScopeId) : List Stmt → Heap → Bool
  | [], _ => true
  | s :: rest, heap =>
      match (s.eval call scope).start heap with
      | (.error _, _) => false
      | (.ok v, after) => !v.stops && completesAll call scope rest after

/-- Whether a program can be run and all its statements complete. -/
def Program.completes (settings : Settings) (scope : ScopeId) (p : Program) (heap : Heap) : Bool :=
  match settings.limitInForce with
  | .error _ => false
  | .ok limit => Stmt.completesAll (callWithin (callDepth limit)) scope p.statements heap

variable {call : Caller} {scope : ScopeId}

/-- After statements that complete, the others start in the heap that these have left. -/
theorem start_evalAll_append {first : List Stmt} :
    ∀ {heap : Heap}, Stmt.completesAll call scope first heap = true →
      ∀ last : Value, last.stops = false →
        ∃ v after, v.stops = false ∧
          (Stmt.evalAll call scope last first).start heap = (.ok v, after) ∧
          ∀ rest, (Stmt.evalAll call scope last (first ++ rest)).start heap =
            (Stmt.evalAll call scope v rest).start after := by
  induction first with
  | nil =>
      intro heap _ last hlast
      exact ⟨last, heap, hlast, rfl, fun _ => rfl⟩
  | cons s first ih =>
      intro heap h last _
      rw [Stmt.completesAll] at h
      split at h
      · cases h
      · next w middle hs =>
          rw [Bool.and_eq_true, Bool.not_eq_true'] at h
          obtain ⟨hw, hfirst⟩ := h
          obtain ⟨v, after, hv, heval, hrest⟩ := ih hfirst w hw
          refine ⟨v, after, hv, ?_, fun rest => ?_⟩
          · rw [Stmt.evalAll, Eval.start_bind, hs]
            simp only [hw, if_neg Bool.false_ne_true]
            exact heval
          · rw [List.cons_append, Stmt.evalAll, Eval.start_bind, hs]
            simp only [hw, if_neg Bool.false_ne_true]
            exact hrest rest

/-- Where there are statements, the value before them does not matter. -/
theorem evalAll_of_ne_nil {body : List Stmt} (h : body ≠ []) (v w : Value) :
    Stmt.evalAll call scope v body = Stmt.evalAll call scope w body := by
  cases body with
  | nil => exact absurd rfl h
  | cons s rest => rw [Stmt.evalAll, Stmt.evalAll]

theorem Value.unwrapped_of_not_stops {v : Value} (h : v.stops = false) : v.unwrapped = v := by
  cases v with
  | returned serial value => cases h
  | _ => rfl

/-- A program whose statements complete yields a value, and one with more statements goes on from
there. -/
theorem runProgram_append {settings : Settings} {p : Program} {heap : Heap}
    (h : p.completes settings scope heap = true) :
    ∃ v after, v.stops = false ∧ runProgram settings scope p heap = (.ok v, after) ∧
      ∀ more : List Stmt, more ≠ [] →
        runProgram settings scope ⟨p.statements ++ more⟩ heap =
          runProgram settings scope ⟨more⟩ after := by
  rw [Program.completes] at h
  split at h
  · cases h
  · next limit hlimit =>
      obtain ⟨v, after, hv, hfirst, hrest⟩ := start_evalAll_append h .null rfl
      refine ⟨v, after, hv, ?_, fun more hmore => ?_⟩
      · simp only [runProgram, evaluate, evaluateWithin, hlimit, Node.eval, Program.eval, Eval.start_bind,
          hfirst, Eval.start_pure, Value.unwrapped_of_not_stops hv]
      · simp only [runProgram, evaluate, evaluateWithin, hlimit, Node.eval, Program.eval, Eval.start_bind,
          hrest, evalAll_of_ne_nil hmore v .null]

end Completion

/-- Let `a` and `b` be read without errors, `a` have depth zero and end in a semicolon, and `b` contain
a statement.  If every statement of `a` completes in some scope of some heap, then there the two texts
in one run to the same result and leave the same heap as `b` does after `a`. -/
theorem run_append_of_completes {a b : String} {p q : Program} (ha : parse a = .ok ⟨p, []⟩)
    (hb : parse b = .ok ⟨q, []⟩) (hdepth : openDepth a = 0)
    (hends : endsInSemicolon a.toList = true) (hq : q.statements ≠ []) (settings : Settings)
    (scope : ScopeId) (heap : Heap) (h : p.completes settings scope heap = true) :
    ∃ v after, v.stops = false ∧ run settings scope a heap = (.ok v, after) ∧
      run settings scope (a ++ b) heap = run settings scope b after := by
  obtain ⟨v, after, hv, hfirst, hrest⟩ := runProgram_append h
  refine ⟨v, after, hv, ?_, ?_⟩
  · simp only [run, runWithin, ha, if_true]
    exact hfirst
  · simp only [run, runWithin, Parser.parse_append ha hdepth hends, hb, Except.map, if_true]
    exact hrest q.statements hq

/-- A function is defined and called, next to a bracket in a string; the second text calls it and then
fails. -/
theorem run_append_of_completes_defined :
    let a := "let f = fn(x) \x7b x + 1 \x7d; f(1); \"(\" ; "
    let b := "let y = f(2); -f"
    let heap := Heap.empty.addRoot .default
    let whole := run .unset 0 (a ++ b) heap
    (∃ v after, run .unset 0 a heap = (.ok v, after) ∧ whole = run .unset 0 b after) ∧
      (whole.2.lookup 0 "y").map Value.display = some "3" := by
  intro a b heap whole
  have ha : parse a = .ok ⟨⟨[
      .bind "f" (.function ["x"] [.expr (.binary (.ident "x") "+" (.integer 1))]),
      .expr (.call (.ident "f") [.integer 1]), .expr (.string "(")]⟩, []⟩ :=
    Parser.eq_ok_of_toOption (by decide +kernel)
  have hb : parse b = .ok ⟨⟨[.bind "y" (.call (.ident "f") [.integer 2]),
      .expr (.unary "-" (.ident "f"))]⟩, []⟩ :=
    Parser.eq_ok_of_toOption (by decide +kernel)
  obtain ⟨v, after, -, hfirst, hwhole⟩ := run_append_of_completes ha hb (by decide +kernel)
    (by decide +kernel) (List.cons_ne_nil _ _) .unset 0 heap (by decide +kernel)
  exact ⟨⟨v, after, hfirst, hwhole⟩, by decide +kernel⟩

end Scriptlet
