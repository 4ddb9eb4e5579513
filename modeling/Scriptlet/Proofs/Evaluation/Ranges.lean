import Scriptlet.Proofs.Parser.Soundness
import Scriptlet.Proofs.Evaluation.Upholding

/-!
# The range of integers

Every integer that a program comes to is one of the language: a signed integer of sixty-four bits.

**Where integers come from.**  From a literal, which is read only if it is in range
(`Parser.obeys_of_derives`); from an operator, which fails if its exact result is not; and from the
length of a string or array, which nothing checks.  Everything else hands integers around: names,
arguments, arrays, `return`s.

**Result.**  `integers_stay_in_range`: if nothing as long as two to the power of sixty-three is passed
to `len`, then in every session no integer outside the range is ever come to, stored or passed, at any
depth.
-/

namespace Scriptlet

/-- Every integer in the value, at any depth, is one of the language. -/
def Value.InRange (v : Value) : Prop :=
  ∀ n, .integer n ∈ v.parts → minInteger ≤ n ∧ n ≤ maxInteger

/-- Whether a string or array that is passed to `len` has fewer than two to the power of sixty-three
elements. -/
def Event.short (event : Event) : Bool :=
  event.length?.all fun n => n < 0x8000000000000000

section Literals

variable {std : Standard}

/-- What a phrase stands for obeys a standard. -/
def Parser.Phrase.obeys (std : Standard) : Parser.Phrase → Bool
  | statements body => Stmt.obeysAll std body
  | statement s => s.obeys std
  | block body => Stmt.obeysAll std body
  | expression e => e.obeys std
  | expressions es => Expr.obeysAll std es
  | parameters _ => true
  | pairs _ => true

/-- Literals are read only if they are integers of the language, so all that is read obeys a standard
that lets returned values be kept. -/
theorem Parser.obeys_of_derives (hstd : std.returned = true) {φ : Parser.Phrase} {ws rest : List Word}
    (h : Parser.Derives φ ws rest) : φ.obeys std = true := by
  have hkept : ∀ may : Bool, (std.returned || may) = true := fun may => by rw [hstd, Bool.true_or]
  induction h with
  | done => rfl
  | more _ _ ih₁ ih₂ =>
      simp only [Phrase.obeys] at ih₁ ih₂
      simp only [Phrase.obeys, Stmt.obeysAll, ih₁, ih₂, Bool.and_self]
  | bind _ _ ih =>
      simp only [Phrase.obeys] at ih
      simp only [Phrase.obeys, Stmt.obeys, hkept, ih, Bool.and_self]
  | ret _ _ ih =>
      simp only [Phrase.obeys] at ih
      simp only [Phrase.obeys, Stmt.obeys, hkept, ih, Bool.and_self]
  | expr _ _ ih => exact ih
  | closed _ ih => exact ih
  | unclosed _ ih => exact ih
  | integer hmax =>
      refine std.integer_of_inRange _ ?_
      rw [inRange, Bool.and_eq_true, decide_eq_true_iff, decide_eq_true_iff]
      refine ⟨?_, hmax⟩
      unfold minInteger
      omega
  | unary _ _ ih => exact ih
  | grouped _ ih => exact ih
  | conditional _ _ ih₁ ih₂ =>
      simp only [Phrase.obeys] at ih₁ ih₂
      simp only [Phrase.obeys, Expr.obeys, ih₁, ih₂, Bool.and_self]
  | alternative _ _ _ ih₁ ih₂ ih₃ =>
      simp only [Phrase.obeys] at ih₁ ih₂ ih₃
      simp only [Phrase.obeys, Expr.obeys, ih₁, ih₂, ih₃, Bool.and_self]
  | constant _ ih => exact ih
  | function _ _ _ ih => exact ih
  | array _ ih => exact ih
  | binary _ _ _ ih₁ ih₂ =>
      simp only [Phrase.obeys] at ih₁ ih₂
      simp only [Phrase.obeys, Expr.obeys, ih₁, ih₂, Bool.and_self]
  | emptyCall _ ih =>
      simp only [Phrase.obeys] at ih
      simp only [Phrase.obeys, Expr.obeys, Expr.obeysAll, ih, Bool.and_self]
  | call _ _ ih₁ ih₂ =>
      simp only [Phrase.obeys] at ih₁ ih₂
      simp only [Phrase.obeys, Expr.obeys, ih₁, ih₂, Bool.and_self]
  | index _ _ ih₁ ih₂ =>
      simp only [Phrase.obeys] at ih₁ ih₂
      simp only [Phrase.obeys, Expr.obeys, ih₁, ih₂, Bool.and_self]
  | lastExpression _ ih =>
      simp only [Phrase.obeys] at ih
      simp only [Phrase.obeys, Expr.obeysAll, hkept, ih, Bool.and_self]
  | moreExpressions _ _ ih₁ ih₂ =>
      simp only [Phrase.obeys] at ih₁ ih₂
      simp only [Phrase.obeys, Expr.obeysAll, hkept, ih₁, ih₂, Bool.and_self]
  | _ => rfl

end Literals

section Machine

/-- Integers of the language may be kept, and what a `return` carries. -/
def Standard.machine : Standard where
  integer := inRange
  integer_of_inRange _ h := h
  returned := true

theorem obeys_machine_of_parse {source : String} {p : Program} (h : parse source = .ok ⟨p, []⟩) :
    Stmt.obeysAll .machine p.statements = true := by
  obtain ⟨ws, hder⟩ := Parser.yields_program.of_parse h
  exact Parser.obeys_of_derives rfl hder

theorem inRange_length {n : Nat} : inRange n = decide (n < 0x8000000000000000) := by
  have hmin : minInteger ≤ n := by
    unfold minInteger
    omega
  have hmax : (n : Int) ≤ maxInteger ↔ n < 0x8000000000000000 := by
    unfold maxInteger
    omega
  rw [inRange, decide_eq_true hmin, Bool.true_and]
  exact decide_eq_decide.mpr hmax

theorem Event.measured_machine (event : Event) : event.measured .machine = event.short := by
  rw [measured, short]
  cases event.length? with
  | none => rfl
  | some n => exact inRange_length

theorem Value.Fits.inRange {v : Value} (h : v.Fits .machine) : v.InRange := by
  intro n hn
  have hallowed : Scriptlet.inRange n = true := h _ hn
  rw [Scriptlet.inRange, Bool.and_eq_true, decide_eq_true_iff, decide_eq_true_iff] at hallowed
  exact hallowed

theorem Value.inRange_error (message : String) : (error message).InRange := by
  intro n hn
  cases List.mem_singleton.mp hn

theorem Value.FitOrError.inRange {v : Value} (h : v.FitOrError .machine) : v.InRange := by
  rcases h with ⟨message, rfl⟩ | h
  · exact inRange_error message
  · exact h.inRange

theorem Event.Meets.aboutInRange {event : Event} (h : event.Meets .machine) :
    event.About Value.InRange := by
  cases event with
  | numbered => trivial
  | bound scope name v => exact h.inRange
  | calling f arguments => exact ⟨(h.1.fits rfl).inRange, fun v hv => (h.2 v hv).inRange⟩
  | entered scope f arguments => exact ⟨h.1.inRange, fun v hv => (h.2 v hv).inRange⟩
  | closed scope body v => exact h.unwrapped.inRange
  | left scope => trivial
  | called f v => exact h.inRange
  | yielded scope e v => exact h.unwrapped.inRange

theorem Event.Yields.aboutInRange {event : Event} {message : String}
    (h : event.Yields (.error message)) : event.About Value.InRange := by
  cases event with
  | closed scope body v => exact h ▸ Value.inRange_error message
  | called f v => exact h ▸ Value.inRange_error message
  | yielded scope e v => exact h ▸ Value.inRange_error message
  | _ => exact h.elim

theorem Event.Proper.aboutInRange {event : Event} (h : event.Proper .machine) :
    event.About Value.InRange :=
  h.elim Meets.aboutInRange (fun _ => Yields.aboutInRange) fun _ => trivial

end Machine

/-- In a session in which nothing too long is passed to `len`, every integer in a result, in a value
that something has come to, in an argument or in a scope, at any depth, is one of the language. -/
theorem integers_stay_in_range (builtins : Registry) {sources : List (Settings × String)}
    (hshort : ∀ event ∈ (Session.new builtins).history sources, event.short = true) :
    (∀ v, .ok v ∈ ((Session.new builtins).runAll sources).1 → v.InRange) ∧
      ((Session.new builtins).runAll sources).2.heap =
        replay ((Session.new builtins).history sources) (Session.new builtins).heap ∧
      (∀ event ∈ (Session.new builtins).history sources, event.About Value.InRange) ∧
      ∀ before after, (Session.new builtins).history sources = before ++ after →
        ∀ v, (replay before (Session.new builtins).heap).Holds v → v.InRange := by
  have hstart : (Session.new builtins).heap.Fits .machine := Session.fits_new builtins
  have hmeasured : ∀ event ∈ (Session.new builtins).history sources,
      event.measured .machine = true := by
    intro event hmem
    rw [event.measured_machine]
    exact hshort event hmem
  obtain ⟨hevents, hresults⟩ := Session.history_upholds
    (fun _ _ _ hparse => obeys_machine_of_parse hparse) hstart hmeasured
  refine ⟨fun v hv => (hresults v hv).inRange, Session.heap_runAll _ sources,
    fun event hmem => (hevents event hmem).aboutInRange, ?_⟩
  intro before after hhistory v hv
  exact (fits_replay_before hevents hstart hhistory v hv).inRange

/-- The greatest integer goes through a function and an array; the least one is come to from it, and a
sum that would be greater is an error. -/
theorem integers_stay_in_range_greatest :
    let sources :=
      [(Settings.unset, "let f = fn(x) \x7b return [x, len([x, x])]; \x7d;"),
        (Settings.unset, "let a = f(9223372036854775807); let b = -a[0] - 1; a[0] + a[1]")]
    (∀ event ∈ (Session.new .default).history sources, event.short = true) ∧
      ∀ v, ((Session.new .default).runAll sources).2.heap.Holds v → v.InRange := by
  intro sources
  have hshort : ∀ event ∈ (Session.new .default).history sources, event.short = true := by
    decide +kernel
  obtain ⟨-, hheap, -, hstores⟩ := integers_stay_in_range .default hshort
  refine ⟨hshort, ?_⟩
  rw [hheap]
  exact hstores _ [] (List.append_nil _).symm

end Scriptlet
