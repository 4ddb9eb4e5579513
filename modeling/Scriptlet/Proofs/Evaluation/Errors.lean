import Scriptlet.Proofs.Evaluation.Upholding

/-!
# Errors

An error is a value that is never kept: no name is bound to it, no argument, no element of an array and
no returned value is or contains one.

**One error.**  An evaluation comes to at most one error.  Once an expression, a block or a call has
come to it, nothing else happens but that what was begun before ends with the same error, up to the
evaluation itself: no further expression is evaluated, no name is bound and no call is made.

**Result.**  `errors_are_handed_on`: both hold in every session, from its first source on, and of every
evaluation in the heap that it leaves.
-/

namespace Scriptlet

namespace Value

/-- Neither the value nor anything in it is an error. -/
def ErrorFree (v : Value) : Prop :=
  ∀ w ∈ v.parts, w.isError = false

end Value

/-- No scope of the heap binds a name to something with an error in it. -/
def Heap.ErrorFree (h : Heap) : Prop :=
  ∀ v, h.Holds v → v.ErrorFree

namespace Event

/-- What the event keeps has no error in it; what something has come to is an error, or has none in
it. -/
def KeepsNoError : Event → Prop
  | numbered => True
  | bound _ _ v => v.ErrorFree
  | calling f arguments => f.ErrorFree ∧ ∀ v ∈ arguments, v.ErrorFree
  | entered _ _ arguments => ∀ v ∈ arguments, v.ErrorFree
  | closed _ _ v => v.isError = true ∨ v.ErrorFree
  | left _ => True
  | called _ v => v.isError = true ∨ v.ErrorFree
  | yielded _ _ v => v.isError = true ∨ v.ErrorFree

end Event

/-- Once something has come to an error, the history only hands it on, and so does the outcome. -/
def HandsOnErrors (events : List Event) (outcome : Except Failure Value) : Prop :=
  ∀ before event after message, events = before ++ event :: after →
    event.Yields (.error message) →
      outcome = .ok (.error message) ∧ ∀ later ∈ after, later.HandsOn message

section Permissive

/-- Everything may be kept, except errors. -/
def Standard.permissive : Standard where
  integer _ := true
  integer_of_inRange _ _ := rfl
  returned := true

mutual

theorem Expr.obeys_permissive : (e : Expr) → e.obeys .permissive = true
  | .ident _ => rfl
  | .integer _ => rfl
  | .boolean _ => rfl
  | .string _ => rfl
  | .unary _ right => right.obeys_permissive
  | .binary left _ right => by
      rw [Expr.obeys, left.obeys_permissive, right.obeys_permissive, Bool.and_self]
  | .conditional condition consequence none => by
      simp only [Expr.obeys, condition.obeys_permissive, Stmt.obeysAll_permissive consequence,
        Bool.and_self]
  | .conditional condition consequence (some block) => by
      simp only [Expr.obeys, condition.obeys_permissive, Stmt.obeysAll_permissive consequence,
        Stmt.obeysAll_permissive block, Bool.and_self]
  | .function _ body => Stmt.obeysAll_permissive body
  | .call callee arguments => by
      rw [Expr.obeys, callee.obeys_permissive, Expr.obeysAll_permissive arguments, Bool.and_self]
  | .array elements => Expr.obeysAll_permissive elements
  | .index left subscript => by
      rw [Expr.obeys, left.obeys_permissive, subscript.obeys_permissive, Bool.and_self]
  | .hash _ => rfl
  | .foreign _ => rfl

theorem Stmt.obeys_permissive : (s : Stmt) → s.obeys .permissive = true
  | .bind _ value => value.obeys_permissive
  | .ret value => value.obeys_permissive
  | .expr expression => expression.obeys_permissive
  | .block body => Stmt.obeysAll_permissive body

theorem Stmt.obeysAll_permissive : (body : List Stmt) → Stmt.obeysAll .permissive body = true
  | [] => rfl
  | s :: rest => by
      rw [Stmt.obeysAll, s.obeys_permissive, Stmt.obeysAll_permissive rest, Bool.and_self]

theorem Expr.obeysAll_permissive : (es : List Expr) → Expr.obeysAll .permissive es = true
  | [] => rfl
  | e :: rest => by
      have hkept : (Standard.permissive.returned || !e.mayReturn) = true := rfl
      rw [Expr.obeysAll, hkept, e.obeys_permissive, Expr.obeysAll_permissive rest]
      rfl

end

theorem Node.obeys_permissive (n : Node) : n.obeys .permissive = true := by
  cases n with
  | program p => exact Stmt.obeysAll_permissive p.statements
  | statement s => exact s.obeys_permissive
  | expression e => exact e.obeys_permissive

theorem Value.fits_permissive_iff {v : Value} : v.Fits .permissive ↔ v.ErrorFree := by
  constructor
  · intro hv w hw
    have hallowed := hv w hw
    cases w with
    | error message => cases hallowed
    | _ => rfl
  · intro hv w hw
    have hfree := hv w hw
    cases w with
    | error message => cases hfree
    | function f => exact Stmt.obeysAll_permissive f.body
    | _ => rfl

theorem Value.Passes.errorFree {may : Bool} {v : Value} (h : v.Passes .permissive may) :
    v.ErrorFree :=
  fits_permissive_iff.mp (h.fits rfl)

theorem Heap.fits_permissive_iff {h : Heap} : h.Fits .permissive ↔ h.ErrorFree :=
  forall₂_congr fun _ _ => Value.fits_permissive_iff

end Permissive

section Events

variable {event : Event} {message : String}

theorem Event.Meets.keepsNoError (h : event.Meets .permissive) : event.KeepsNoError := by
  cases event with
  | numbered => trivial
  | bound scope name v => exact Value.fits_permissive_iff.mp h
  | calling f arguments =>
      exact ⟨h.1.errorFree, fun v hv => Value.fits_permissive_iff.mp (h.2 v hv)⟩
  | entered scope f arguments => exact fun v hv => Value.fits_permissive_iff.mp (h.2 v hv)
  | closed scope body v => exact Or.inr h.errorFree
  | left scope => trivial
  | called f v => exact Or.inr (Value.fits_permissive_iff.mp h)
  | yielded scope e v => exact Or.inr h.errorFree

theorem Event.Yields.keepsNoError (h : event.Yields (.error message)) : event.KeepsNoError := by
  cases event with
  | closed scope body v => exact Or.inl (h ▸ rfl)
  | called f v => exact Or.inl (h ▸ rfl)
  | yielded scope e v => exact Or.inl (h ▸ rfl)
  | _ => exact h.elim

theorem Event.Proper.keepsNoError (h : event.Proper .permissive) : event.KeepsNoError :=
  h.elim Meets.keepsNoError (fun _ => Yields.keepsNoError) fun _ => trivial

theorem Event.Yields.unique {message' : String} (h : event.Yields (.error message))
    (h' : event.Yields (.error message')) : message' = message := by
  cases event with
  | closed scope body v => exact Value.error.inj (h'.symm.trans h)
  | called f v => exact Value.error.inj (h'.symm.trans h)
  | yielded scope e v => exact Value.error.inj (h'.symm.trans h)
  | _ => exact h.elim

theorem Event.HandsOn.unique {message' : String} (h : event.HandsOn message)
    (h' : event.Yields (.error message')) : message' = message := by
  rcases h.yields with h | ⟨scope, rfl⟩
  · exact h.unique h'
  · exact h'.elim

/-- While an error is handed on, what has come to an error has come to this one, and only hands it on
afterwards. -/
theorem Unwinds.eq_of_yields {message' : String} {before after : List Event}
    (h : Unwinds message (before ++ event :: after)) (hevent : event.Yields (.error message')) :
    message' = message ∧ ∀ later ∈ after, later.HandsOn message := by
  cases before with
  | nil =>
      refine ⟨?_, h.2⟩
      rcases h.1 with hfirst | hfirst
      · exact hfirst.unique hevent
      · exact hfirst.unique hevent
  | cons first rest =>
      obtain ⟨-, hrest⟩ := List.forall_mem_append.mp h.2
      obtain ⟨hhands, hafter⟩ := List.forall_mem_cons.mp hrest
      exact ⟨hhands.unique hevent, hafter⟩

theorem Settled.handsOnErrors {std : Standard} {Q : Value → Prop} {events : List Event}
    {outcome : Except Failure Value} (h : Settled std Q Value.error (events, outcome)) :
    HandsOnErrors events outcome := by
  intro before event after message hevents hevent
  subst hevents
  rcases h with ⟨hmeets, -⟩ | ⟨first, calm, unwinding, heq, hcalm, hunwinding⟩
  · exact absurd hevent ((hmeets event (by simp)).not_yields message)
  · obtain ⟨hsplit, rfl⟩ := Prod.mk.inj heq
    -- The event is not among the calm ones, so it stands in what follows them.
    have hlater : ∃ between, unwinding = between ++ event :: after := by
      rcases List.append_eq_append_iff.mp hsplit with ⟨between, rfl, hrest⟩ | ⟨between, -, hrest⟩
      · cases between with
        | nil => exact ⟨[], hrest.symm⟩
        | cons e more =>
            obtain ⟨rfl, -⟩ := List.cons.inj hrest
            exact absurd hevent ((hcalm event (by simp)).not_yields message)
      · exact ⟨between, hrest⟩
    obtain ⟨between, rfl⟩ := hlater
    obtain ⟨rfl, hafter⟩ := hunwinding.eq_of_yields hevent
    exact ⟨rfl, hafter⟩

end Events

/-- From a heap without errors, an evaluation hands its error on, and comes to an error or to a value
without one in it. -/
theorem recordEvaluate_handsOnErrors (settings : Settings) (scope : ScopeId) (n : Node) {h : Heap}
    (hh : h.ErrorFree) :
    HandsOnErrors (recordEvaluate settings scope n h).1 (recordEvaluate settings scope n h).2 ∧
      ∀ v, (recordEvaluate settings scope n h).2 = .ok v → v.isError = true ∨ v.ErrorFree := by
  have hsettled := recordEvaluate_upholds settings scope n.obeys_permissive
    (Heap.fits_permissive_iff.mpr hh) fun event _ => event.measured_eq_true fun _ => rfl
  refine ⟨hsettled.handsOnErrors, ?_⟩
  intro v hv
  rcases hsettled.value hv with ⟨message, rfl⟩ | hpasses
  · exact Or.inl rfl
  · exact Or.inr hpasses.errorFree

/-- In every session no error is ever stored, passed, put into an array or returned.  Every evaluation
in the heap that the session leaves, of a program or of any other phrase, comes to at most one error:
once something has come to it nothing happens but that it is handed on, and the evaluation comes to the
same error. -/
theorem errors_are_handed_on (builtins : Registry) (sources : List (Settings × String)) :
    let s := Session.new builtins
    (∀ event ∈ s.history sources, event.KeepsNoError) ∧
      (∀ v, .ok v ∈ (s.runAll sources).1 → v.isError = true ∨ v.ErrorFree) ∧
      (∀ before after, s.history sources = before ++ after →
        (replay before s.heap).ErrorFree) ∧
      (s.runAll sources).2.heap = replay (s.history sources) s.heap ∧
      ∀ settings scope n,
        let h := (s.runAll sources).2.heap
        let (events, outcome) := recordEvaluate settings scope n h
        evaluate settings scope n h = (outcome, replay events h) ∧
          HandsOnErrors events outcome ∧
          ∀ v, outcome = .ok v → v.isError = true ∨ v.ErrorFree := by
  intro s
  have hstart : s.heap.Fits .permissive := Session.fits_new builtins
  obtain ⟨hevents, hresults⟩ := Session.history_upholds
    (fun _ _ p _ => Stmt.obeysAll_permissive p.statements) hstart
    fun event _ => event.measured_eq_true fun _ => rfl
  have hheaps : ∀ before after, s.history sources = before ++ after →
      (replay before s.heap).ErrorFree := by
    intro before after hhistory
    exact Heap.fits_permissive_iff.mp (fits_replay_before hevents hstart hhistory)
  refine ⟨fun event hmem => (hevents event hmem).keepsNoError, ?_, hheaps,
    s.heap_runAll sources, ?_⟩
  · intro v hv
    rcases hresults v hv with ⟨message, rfl⟩ | hfits
    · exact Or.inl rfl
    · exact Or.inr (Value.fits_permissive_iff.mp hfits)
  · intro settings scope n h
    have hh : h.ErrorFree := by
      have hlast := hheaps (s.history sources) [] (List.append_nil _).symm
      rwa [← s.heap_runAll sources] at hlast
    exact ⟨evaluate_eq settings scope n h, recordEvaluate_handsOnErrors settings scope n hh⟩

end Scriptlet
