import Scriptlet.Proofs.Evaluation.Upholding

/-!
# Returned values that escape

A call and a program take off one layer of what a `return` carries.  A second layer comes about when a
returned value is itself kept, and it is left over: a program then ends in a returned value, and the
value of a call ends the function that made the call.

**Containment.**  A source is contained if no conditional with a `return` in it, outside functions,
stands where its value is kept: as what a `let` binds, what a `return` carries, an argument or an element
of an array.  Elsewhere such conditionals do no harm.

**Results.**
* `returned_values_end_one_call`: in a session of contained sources no program and no call comes to a
  returned value, so nothing but an error in a call ends the block that the call stands in.
* `returned_value_escapes`: without containment both can happen.
-/

namespace Scriptlet

/-- Everything may be kept, except errors and what a `return` carries. -/
def Standard.contained : Standard where
  integer _ := true
  integer_of_inRange _ _ := rfl
  returned := false

/-- Whether a source that is read without errors is contained; another source is not run. -/
def containedSource (source : String) : Bool :=
  match parse source with
  | .ok ⟨p, []⟩ => Stmt.obeysAll .contained p.statements
  | _ => true

/-- The value is no returned one, and ends the block it stands in only if it is an error. -/
def Value.StaysInBlock (v : Value) : Prop :=
  v.kind ≠ .returned ∧ (v.stops = true → v.isError = true)

namespace Event

/-- If the event is that a call has come to a value, or an expression that is a call, then the value
stays in its block. -/
def CallStaysInBlock : Event → Prop
  | called _ v => v.StaysInBlock
  | yielded _ (.call _ _) v => v.StaysInBlock
  | _ => True

end Event

section Contained

theorem Value.staysInBlock_error (message : String) : (error message).StaysInBlock :=
  ⟨by simp [kind], fun _ => rfl⟩

theorem Value.Fits.staysInBlock {v : Value} (h : v.Fits .contained) : v.StaysInBlock := by
  cases v with
  | returned serial w => exact Bool.noConfusion (h _ (self_mem_parts _))
  | _ => exact ⟨by simp [kind], by simp [stops, isError]⟩

theorem Value.FitOrError.staysInBlock {v : Value} (h : v.FitOrError .contained) :
    v.StaysInBlock := by
  rcases h with ⟨message, rfl⟩ | h
  · exact staysInBlock_error message
  · exact h.staysInBlock

theorem Event.Yields.callStaysInBlock {event : Event} {message : String}
    (h : event.Yields (.error message)) : event.CallStaysInBlock := by
  cases event with
  | called f v => exact h ▸ Value.staysInBlock_error message
  | yielded scope e v =>
      cases e with
      | call callee arguments => exact h ▸ Value.staysInBlock_error message
      | _ => trivial
  | _ => trivial

theorem Event.Meets.callStaysInBlock {event : Event} (h : event.Meets .contained) :
    event.CallStaysInBlock := by
  cases event with
  | called f v => exact h.staysInBlock
  | yielded scope e v =>
      cases e with
      | call callee arguments => exact (h.fits rfl).staysInBlock
      | _ => trivial
  | _ => trivial

theorem Event.Proper.callStaysInBlock {event : Event} (h : event.Proper .contained) :
    event.CallStaysInBlock :=
  h.elim Meets.callStaysInBlock (fun _ => Yields.callStaysInBlock) fun _ => trivial

theorem obeys_contained_of_parse {source : String} {p : Program}
    (hsource : containedSource source = true) (hparse : parse source = .ok ⟨p, []⟩) :
    Stmt.obeysAll .contained p.statements = true := by
  rw [containedSource, hparse] at hsource
  exact hsource

end Contained

/-- In a session of contained sources no program and no call comes to a returned value: a `return`
ends the function it stands in, and never the one that called it. -/
theorem returned_values_end_one_call (builtins : Registry) {sources : List (Settings × String)}
    (hsources : ∀ run ∈ sources, containedSource run.2 = true) :
    (∀ v, .ok v ∈ ((Session.new builtins).runAll sources).1 → v.kind ≠ .returned) ∧
      ∀ event ∈ (Session.new builtins).history sources, event.CallStaysInBlock := by
  obtain ⟨hevents, hresults⟩ := Session.history_upholds
    (fun run hrun _ hparse => obeys_contained_of_parse (hsources run hrun) hparse)
    (Session.fits_new builtins) fun event _ => event.measured_eq_true fun _ => rfl
  constructor
  · intro v hv
    exact (hresults v hv).staysInBlock.1
  · intro event hmem
    exact (hevents event hmem).callStaysInBlock

/-- Conditionals with a `return` stand as a condition, as an operand and as a statement, in functions
that call each other. -/
theorem returned_values_end_one_call_nested :
    let sources :=
      [(Settings.unset, "let f = fn(x) \x7b if (if (x) \x7b return 1; \x7d) \x7b return 2; \x7d 3 \x7d;"),
        (Settings.unset, "let g = fn(x) \x7b f(x); 1 + if (x) \x7b 4 \x7d else \x7b return f(x); \x7d \x7d;"),
        (Settings.unset, "return [g(true), f(false)];")]
    (∀ run ∈ sources, containedSource run.2 = true) ∧
      ∀ v, .ok v ∈ ((Session.new .default).runAll sources).1 → v.kind ≠ .returned := by
  intro sources
  have hsources : ∀ run ∈ sources, containedSource run.2 = true := by decide +kernel
  exact ⟨hsources, (returned_values_end_one_call .default hsources).1⟩

/-- A program that returns a conditional which returns ends in a returned value.  A function that does
so hands a returned value to its caller, which ends there: `g` never comes to its last expression. -/
theorem returned_value_escapes :
    let result := fun source =>
      ((Session.new .default).run .unset source).1.toOption.map fun v => (v.kind, v.display)
    result "return if (true) \x7b return 1; \x7d;" = some (.returned, "1") ∧
      result ("let f = fn() \x7b return if (true) \x7b return 1; \x7d; \x7d; " ++
        "let g = fn() \x7b f(); 2 \x7d; g()") = some (.integer, "1") := by
  decide +kernel

end Scriptlet
