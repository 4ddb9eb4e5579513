import Scriptlet.Proofs.Evaluation.Confinement
import Scriptlet.Proofs.Parser.Recovery

/-!
# Running what was read

Whatever a text is read as can be run, errors or not: evaluation meets nothing that it was not made for.

**Surroundings.**  `Heap.BuiltFrom root h`: the heap `h` has come about by running programs that were read,
each in some scope from the root on.

**Result.**  `read_programs_run_ordinarily`: a program that was read is well-formed, and when it is run in
such surroundings no foreign object is evaluated, no operator is applied in front of an operand that is
not one of the language, and every expression that is evaluated is well-formed, also in the functions
that are called.
-/

namespace Scriptlet

/-- The heap has come about by running programs that were read, with errors or without, in scopes from the
root on. -/
inductive Heap.BuiltFrom (root : ScopeId) : Heap → Prop
  | start (h : Heap) (builtins : Registry) :
      h.next = root →
      BuiltFrom root (h.addRoot builtins)
  | run {h : Heap} {source : String} {parsed : Parsed} {scope : ScopeId} (settings : Settings) :
      BuiltFrom root h →
      parse source = .ok parsed →
      root ≤ scope →
      BuiltFrom root (runProgram settings scope parsed.program h).2

/-- Only well-formed phrases are at large in surroundings that programs have built. -/
theorem Heap.BuiltFrom.confined {root : ScopeId} {h : Heap} (hh : h.BuiltFrom root) :
    h.Confined (fun n => n.wellFormed = true) root := by
  induction hh with
  | start h builtins hroot =>
      rw [← hroot]
      exact confined_addRoot h builtins
  | run settings _ hparse hscope ih =>
      have hphrases := fun n hn =>
        Program.wellFormed_of_mem_phrases (wellFormed_of_parse hparse) (n := n) hn
      obtain ⟨hevents, -⟩ := recordEvaluate_confined settings hscope (n := .program _) hphrases ih
      rw [runProgram, evaluate_eq]
      exact confined_replay hevents ih

/-- Let a program be read, with errors or without, and run in a scope of surroundings that such programs
have built.  The program is well-formed, and so is every expression that is evaluated: none of them is a
foreign object, and every operator in front of an operand is one of the language. -/
theorem read_programs_run_ordinarily {source : String} {parsed : Parsed}
    (hparse : parse source = .ok parsed) :
    parsed.program.wellFormed = true ∧
      ∀ {root scope : ScopeId} {h : Heap} (settings : Settings), h.BuiltFrom root → root ≤ scope →
        runProgram settings scope parsed.program h =
            ((recordEvaluate settings scope (.program parsed.program) h).2,
              replay (recordEvaluate settings scope (.program parsed.program) h).1 h) ∧
          ∀ j e v,
            .yielded j e v ∈ (recordEvaluate settings scope (.program parsed.program) h).1 →
            e.wellFormed = true ∧ (∀ typeName, e ≠ .foreign typeName) ∧
              ∀ op right, e = .unary op right → op ∈ unaryOperators := by
  have hwf := wellFormed_of_parse hparse
  refine ⟨hwf, ?_⟩
  intro root scope h settings hbuilt hscope
  refine ⟨evaluate_eq .., ?_⟩
  have hphrases := fun n hn => Program.wellFormed_of_mem_phrases hwf (n := n) hn
  obtain ⟨hevents, -⟩ :=
    recordEvaluate_confined settings hscope (n := .program _) hphrases hbuilt.confined
  intro j e v hmem
  obtain ⟨-, he, -⟩ := hevents _ hmem
  have he : e.wellFormed = true := he
  refine ⟨he, ?_, ?_⟩
  · rintro typeName rfl
    cases he
  · rintro op right rfl
    rw [Expr.wellFormed, Bool.and_eq_true] at he
    exact of_decide_eq_true he.1

/-- A text with errors is read in part, run, and run again where it was run before. -/
theorem read_programs_run_ordinarily_partial :
    let source := "let f = fn(x) \x7b !-x \x7d; let 5; \x7b1: 2; f(3) )"
    let start := Session.new .default
    ∃ parsed, parse source = .ok parsed ∧ parsed.errors ≠ [] ∧ parsed.program.statements ≠ [] ∧
      ∀ j typeName v, .yielded j (.foreign typeName) v ∉
        (recordEvaluate .unset start.scope (.program parsed.program)
          (runProgram .unset start.scope parsed.program start.heap).2).1 := by
  intro source start
  have hread : (match parse source with
      | .ok parsed => decide (parsed.errors ≠ [] ∧ parsed.program.statements ≠ [])
      | .error _ => false) = true := by
    decide +kernel
  cases hparse : parse source with
  | error fault =>
      rw [hparse] at hread
      cases hread
  | ok parsed =>
      rw [hparse] at hread
      have hread := of_decide_eq_true hread
      obtain ⟨-, hruns⟩ := read_programs_run_ordinarily hparse
      have hstart : start.heap.BuiltFrom start.scope := .start .empty .default rfl
      have hbuilt := hstart.run .unset hparse (Nat.le_refl _)
      obtain ⟨-, hordinary⟩ := hruns .unset hbuilt (Nat.le_refl _)
      refine ⟨parsed, rfl, hread.1, hread.2, ?_⟩
      intro j typeName v hmem
      exact (hordinary j _ v hmem).2.1 typeName rfl

end Scriptlet
