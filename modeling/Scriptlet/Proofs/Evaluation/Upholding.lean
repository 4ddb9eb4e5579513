import Scriptlet.Proofs.Evaluation.Standards

/-!
# Upholding a standard

Evaluation keeps to a standard, one way or the other.

**The judgement.**  `Upholds std x Q failed`: from a heap of fit values, `x` goes on calmly, with every
event about fit values, and what it yields satisfies `Q`; or an error comes up, and from there on nothing
happens but that this error is handed on, up to what `x` yields, which is then `failed` of its message.

**Method.**  There is a rule for every way of putting evaluations together.  What follows a value only
resigns if the value is an error, so the first error is the last thing that comes up (`Upholds.bind`).
Expressions and statements are gone through by recursion on the syntax, calls by induction on how deep
they may nest.

**Results.**
* `recordEvaluate_upholds`: evaluating a phrase that obeys a standard upholds it.
* `Session.history_upholds`: so does a session whose sources obey it, from its first source to its last.
-/

namespace Scriptlet

section Evaluations

variable {std : Standard} {α β : Type}

/-- Everything went on calmly and what was come to has the property, or an error came up and was
handed on. -/
def Settled {ε : Type} (std : Standard) (Q : α → Prop) (failed : String → α)
    (result : List Event × Except ε α) : Prop :=
  ((∀ event ∈ result.1, event.Meets std) ∧ ∀ a, result.2 = .ok a → Q a) ∨
    ∃ message calm unwinding, result = (calm ++ unwinding, .ok (failed message)) ∧
      (∀ event ∈ calm, event.Meets std) ∧ Unwinds message unwinding

/-- From a heap of fit values the evaluation ends calmly, or by handing on the first error. -/
def Upholds (std : Standard) (x : Recorded α) (Q : α → Prop) (failed : String → α) : Prop :=
  ∀ h : Heap, h.Fits std → (∀ event ∈ (x h).1, event.measured std = true) →
    Settled std Q failed (x h)

/-- The evaluation does nothing but hand an error on. -/
def Resigns (x : Recorded α) (message : String) (a : α) : Prop :=
  ∀ h : Heap, ∃ events, x h = (events, .ok a) ∧ ∀ event ∈ events, event.HandsOn message

variable {Q : α → Prop} {R : β → Prop} {failed : String → α} {failed' : String → β}

theorem Settled.after {ε : Type} {events more : List Event} {outcome : Except ε α}
    (h : Settled std Q failed (more, outcome)) (hevents : ∀ event ∈ events, event.Meets std) :
    Settled std Q failed (events ++ more, outcome) := by
  rcases h with ⟨hmore, hvalue⟩ | ⟨message, calm, unwinding, heq, hcalm, hunwinding⟩
  · refine Or.inl ⟨?_, hvalue⟩
    exact List.forall_mem_append.mpr ⟨hevents, hmore⟩
  · obtain ⟨rfl, rfl⟩ := Prod.mk.inj heq
    refine Or.inr ⟨message, events ++ calm, unwinding, ?_, ?_, hunwinding⟩
    · rw [List.append_assoc]
    · exact List.forall_mem_append.mpr ⟨hevents, hcalm⟩

theorem Settled.mapError {ε ε' : Type} {result : List Event × Except ε α}
    (h : Settled std Q failed result) (f : ε → ε') :
    Settled std Q failed (result.1, result.2.mapError f) := by
  rcases h with ⟨hevents, hvalue⟩ | ⟨message, calm, unwinding, rfl, hrest⟩
  · exact Or.inl ⟨hevents, fun a ha => hvalue a (eq_ok_of_mapError ha)⟩
  · exact Or.inr ⟨message, calm, unwinding, rfl, hrest⟩

theorem upholds_pure {a : α} (ha : Q a) : Upholds std (pure a) Q failed := by
  intro h _ _
  refine Or.inl ⟨by simp [Recorded.run_pure], ?_⟩
  intro b hb
  cases hb
  exact ha

theorem Upholds.mono {Q' : α → Prop} {x : Recorded α} (hx : Upholds std x Q failed)
    (h : ∀ a, Q a → Q' a) : Upholds std x Q' failed := by
  intro heap hheap hmeasured
  rcases hx heap hheap hmeasured with ⟨hevents, hvalue⟩ | herror
  · exact Or.inl ⟨hevents, fun a ha => h a (hvalue a ha)⟩
  · exact Or.inr herror

/-- What follows an error only hands it on. -/
theorem Upholds.bind {x : Recorded α} {f : α → Recorded β} (hx : Upholds std x Q failed)
    (hfailed : ∀ message, Resigns (f (failed message)) message (failed' message))
    (hf : ∀ a, Q a → Upholds std (f a) R failed') : Upholds std (x >>= f) R failed' := by
  intro h hh hmeasured
  have hfirst := hx h hh
  rw [Recorded.run_bind] at hmeasured ⊢
  generalize x h = result at hfirst hmeasured
  obtain ⟨events, outcome⟩ := result
  cases outcome with
  | error e =>
      rcases hfirst hmeasured with ⟨hevents, -⟩ | ⟨message, calm, unwinding, heq, -⟩
      · exact Or.inl ⟨hevents, fun b hb => by cases hb⟩
      · cases heq
  | ok a =>
      obtain ⟨hbefore, hafter⟩ := List.forall_mem_append.mp hmeasured
      rcases hfirst hbefore with ⟨hevents, hvalue⟩ | ⟨message, calm, unwinding, heq, hcalm, hun⟩
      · have hheap := fits_replay (fun event hmem => Or.inl (hevents event hmem)) hh
        exact (hf a (hvalue a rfl) _ hheap hafter).after hevents
      · obtain ⟨rfl, ha⟩ := Prod.mk.inj heq
        cases ha
        obtain ⟨more, hrun, hmore⟩ := hfailed message (replay (calm ++ unwinding) h)
        refine Or.inr ⟨message, calm, unwinding ++ more, ?_, hcalm, hun.append hmore⟩
        simp only [hrun, List.append_assoc]

/-- One calm event comes first. -/
theorem Upholds.first {x : Recorded α} {f : α → Recorded β}
    (hx : ∀ h : Heap, ∃ event a, x h = ([event], .ok a) ∧ event.Meets std ∧
      (event.measured std = true → Upholds std (f a) R failed')) :
    Upholds std (x >>= f) R failed' := by
  intro h hh hmeasured
  obtain ⟨event, a, hrun, hevent, hf⟩ := hx h
  rw [Recorded.run_bind, hrun] at hmeasured ⊢
  obtain ⟨hfirst, hafter⟩ := List.forall_mem_append.mp hmeasured
  have hevents : ∀ e ∈ [event], e.Meets std := by simpa using hevent
  have hheap : (replay [event] h).Fits std := hevent.fits_apply hh
  exact (hf (by simpa using hfirst) _ hheap hafter).after hevents

theorem resigns_pure (message : String) (a : α) : Resigns (pure a) message a :=
  fun _ => ⟨[], rfl, by simp⟩

/-- Something that hands the error on happens. -/
theorem resigns_happen {message : String} {a : α} {event : Event}
    (hevent : event.HandsOn message) :
    Resigns (Recorded.happen event >>= fun _ => pure a) message a :=
  fun _ => ⟨[event], rfl, by simpa using hevent⟩

theorem upholds_happen {event : Event} {a : α} (hevent : event.Meets std) (ha : Q a) :
    Upholds std (Recorded.happen event >>= fun _ => pure a) Q failed :=
  Upholds.first fun _ => ⟨event, (), rfl, hevent, fun _ => upholds_pure ha⟩

section Values

variable {x : Recorded Value} {Q : Value → Prop}

/-- An operation may come to an error of its own. -/
theorem upholds_result {v : Value} (hv : v.FitOrError std) (hQ : v.Fits std → Q v) :
    Upholds std (pure v) Q Value.error := by
  rcases hv with ⟨message, rfl⟩ | hv
  · intro h _ _
    exact Or.inr ⟨message, [], [], rfl, by simp, trivial⟩
  · exact upholds_pure (hQ hv)

theorem Upholds.unlessError {f : Value → Recorded Value} {may : Bool}
    (hx : Upholds std x (Value.Passes std may) Value.error)
    (hf : ∀ v, v.Passes std may → Upholds std (f v) Q Value.error) :
    Upholds std (Recorded.unlessError x f) Q Value.error := by
  refine hx.bind (fun message => resigns_pure message _) fun v hv => ?_
  rw [hv.isError_eq_false]
  exact hf v hv

theorem Upholds.noting {event : Value → Event} (hx : Upholds std x Q Value.error)
    (hfailed : ∀ message, (event (.error message)).HandsOn message)
    (hevent : ∀ v, Q v → (event v).Meets std) :
    Upholds std (Recorded.noting event x) Q Value.error :=
  hx.bind (fun message => resigns_happen (hfailed message)) fun v hv =>
    upholds_happen (hevent v hv) hv

theorem Upholds.yielding {e : Expr} (hx : Upholds std x (Value.Passes std e.mayReturn) Value.error)
    (he : e.isCompound = true) (scope : ScopeId) :
    Upholds std (Recorded.noting (.yielded scope e) x) (Value.Passes std e.mayReturn) Value.error :=
  hx.noting (fun _ => ⟨he, rfl⟩) fun _ hv => hv

theorem Upholds.closing {may : Bool} (hx : Upholds std x (Value.Passes std may) Value.error)
    (scope : ScopeId) (body : Block) :
    Upholds std (Recorded.noting (.closed scope body) x) (Value.Passes std may) Value.error :=
  hx.noting (fun _ => rfl) fun _ hv => hv.mono fun _ => rfl

/-- An expression without parts to evaluate comes to a fit value, or an error comes up here. -/
theorem upholds_leaf {scope : ScopeId} {e : Expr}
    (hx : ∀ h : Heap, h.Fits std → ∃ calm v, x h = (calm, .ok v) ∧
      (∀ event ∈ calm, event.Meets std) ∧ v.FitOrError std) :
    Upholds std (Recorded.noting (.yielded scope e) x) (Value.Passes std e.mayReturn)
      Value.error := by
  intro h hh _
  obtain ⟨calm, v, hrun, hcalm, hv⟩ := hx h hh
  have hnoting : Recorded.noting (.yielded scope e) x h =
      (calm ++ [.yielded scope e v], .ok v) := by
    rw [Recorded.noting, Recorded.run_bind, hrun]
    rfl
  rw [hnoting]
  rcases hv with ⟨message, rfl⟩ | hv
  · exact Or.inr ⟨message, calm, _, rfl, hcalm, Or.inl rfl, by simp⟩
  · refine Or.inl ⟨List.forall_mem_append.mpr ⟨hcalm, ?_⟩, ?_⟩
    · intro event hmem
      rw [List.mem_singleton] at hmem
      rw [hmem]
      exact Or.inl hv
    · intro w hw
      cases hw
      exact Or.inl hv

theorem upholds_literal {scope : ScopeId} {e : Expr} {v : Value} (hv : v.FitOrError std) :
    Upholds std (Recorded.noting (.yielded scope e) (pure v)) (Value.Passes std e.mayReturn)
      Value.error :=
  upholds_leaf fun _ _ => ⟨[], v, rfl, by simp, hv⟩

end Values

theorem fitOrError_name {h : Heap} (hh : h.Fits std) (scope : ScopeId) (text : String) :
    ((h.resolve scope text).getD (RuntimeError.notFound text).value).FitOrError std := by
  cases hresolve : h.resolve scope text with
  | none => exact Value.fitOrError_error _
  | some v =>
      rcases Heap.holds_resolve hresolve with hholds | ⟨b, rfl⟩
      · exact Or.inr (hh v hholds)
      · exact Value.fitOrError_plain rfl rfl

/-- The values of expressions are fit. -/
def FitAll (std : Standard) : Except Value (List Value) → Prop
  | .error _ => False
  | .ok vs => ∀ v ∈ vs, v.Fits std

/-- The error among the values of expressions. -/
def failedAll (message : String) : Except Value (List Value) :=
  .error (.error message)

/-- Calls with fit arguments uphold the standard. -/
def CallsUphold (std : Standard) (call : RecordedCaller) : Prop :=
  ∀ f arguments, f.Passes std true → (∀ v ∈ arguments, v.Fits std) →
    (Event.calling f arguments).measured std = true →
      Upholds std (call f arguments) (Value.Fits std) Value.error

variable {call : RecordedCaller}

mutual

theorem Expr.upholds (hcall : CallsUphold std call) (scope : ScopeId) :
    (e : Expr) → e.obeys std = true →
      Upholds std (e.record call scope) (Value.Passes std e.mayReturn) Value.error
  | .ident text, _ => upholds_leaf fun _ hh => ⟨[], _, rfl, by simp, fitOrError_name hh scope text⟩
  | .integer value, ho => upholds_literal (Value.fitOrError_plain rfl ho)
  | .boolean value, _ => upholds_literal (Value.fitOrError_plain rfl rfl)
  | .string value, _ => upholds_literal (Value.fitOrError_plain rfl rfl)
  | .unary op right, ho => by
      refine Upholds.yielding ?_ rfl scope
      refine (right.upholds hcall scope ho).unlessError fun v _ => ?_
      exact upholds_result (Value.fitOrError_applyUnary op v) Or.inl
  | .binary left op right, ho => by
      rw [Expr.obeys, Bool.and_eq_true] at ho
      refine Upholds.yielding ?_ rfl scope
      refine (left.upholds hcall scope ho.1).unlessError fun a _ => ?_
      refine (right.upholds hcall scope ho.2).unlessError fun b _ => ?_
      exact upholds_result (Value.fitOrError_applyBinary op a b) Or.inl
  | .conditional condition consequence none, ho => by
      simp only [Expr.obeys, Bool.and_eq_true] at ho
      obtain ⟨⟨hcondition, hthen⟩, -⟩ := ho
      have hthen := Stmt.upholdsAll hcall scope consequence hthen .null (Value.fits_plain rfl rfl)
      refine Upholds.yielding ?_ rfl scope
      refine (condition.upholds hcall scope hcondition).unlessError
        fun v _ => ?_
      by_cases hv : v.truthy = true
      · rw [if_pos hv]
        refine (hthen.closing scope consequence).mono fun _ h => h.mono fun hreturns => ?_
        simp [Expr.mayReturn, Expr.returns, hreturns]
      · rw [if_neg hv]
        exact upholds_pure (Or.inl (Value.fits_plain rfl rfl))
  | .conditional condition consequence (some block), ho => by
      simp only [Expr.obeys, Bool.and_eq_true] at ho
      obtain ⟨⟨hcondition, hthen⟩, helse⟩ := ho
      have hthen := Stmt.upholdsAll hcall scope consequence hthen .null (Value.fits_plain rfl rfl)
      have helse := Stmt.upholdsAll hcall scope block helse .null (Value.fits_plain rfl rfl)
      refine Upholds.yielding ?_ rfl scope
      refine (condition.upholds hcall scope hcondition).unlessError
        fun v _ => ?_
      by_cases hv : v.truthy = true
      · rw [if_pos hv]
        refine (hthen.closing scope consequence).mono fun _ h => h.mono fun hreturns => ?_
        simp [Expr.mayReturn, Expr.returns, hreturns]
      · rw [if_neg hv]
        refine (helse.closing scope block).mono fun _ h => h.mono fun hreturns => ?_
        simp [Expr.mayReturn, Expr.returns, hreturns]
  | .function parameters body, ho => by
      refine upholds_leaf fun h _ => ⟨[.numbered], .function ⟨h.serial, parameters, body, scope⟩, rfl, ?_⟩
      refine ⟨by simp [Event.Meets], ?_⟩
      exact Value.fitOrError_plain rfl ho
  | .call callee arguments, ho => by
      rw [Expr.obeys, Bool.and_eq_true] at ho
      refine Upholds.yielding ?_ rfl scope
      refine (callee.upholds hcall scope ho.1).unlessError fun f hf => ?_
      refine (Expr.upholdsAll hcall scope arguments ho.2).bind (fun message => resigns_pure message _)
        fun result hresult => ?_
      cases result with
      | error e => exact hresult.elim
      | ok vs =>
          have hf : f.Passes std true := hf.mono fun _ => rfl
          refine Upholds.first fun _ => ⟨.calling f vs, (), rfl, ⟨hf, hresult⟩, fun hmeasured => ?_⟩
          refine Upholds.mono ?_ fun _ => Or.inl
          exact (hcall f vs hf hresult hmeasured).noting (fun _ => rfl) fun _ hv => hv
  | .array elements, ho => by
      refine Upholds.yielding ?_ rfl scope
      refine (Expr.upholdsAll hcall scope elements ho).bind (fun message => resigns_pure message _)
        fun result hresult => ?_
      cases result with
      | error e => exact hresult.elim
      | ok vs => exact upholds_pure (Or.inl (Value.fits_array hresult))
  | .index left subscript, ho => by
      rw [Expr.obeys, Bool.and_eq_true] at ho
      refine Upholds.yielding ?_ rfl scope
      refine (left.upholds hcall scope ho.1).unlessError fun a ha => ?_
      refine (subscript.upholds hcall scope ho.2).unlessError
        fun b _ => ?_
      exact upholds_result (Value.fitOrError_applyIndex ha b) Or.inl
  | .hash pairs, _ => upholds_literal (Value.fitOrError_error _)
  | .foreign typeName, _ => upholds_literal (Value.fitOrError_error _)

theorem Expr.upholdsAll (hcall : CallsUphold std call) (scope : ScopeId) :
    (es : List Expr) → Expr.obeysAll std es = true →
      Upholds std (Expr.recordAll call scope es) (FitAll std) failedAll
  | [], _ => upholds_pure (by simp [FitAll])
  | e :: rest, ho => by
      simp only [Expr.obeysAll, Bool.and_eq_true] at ho
      obtain ⟨⟨hmay, hfirst⟩, hrest⟩ := ho
      refine (e.upholds hcall scope hfirst).bind (fun message => resigns_pure message _) fun v hv => ?_
      rw [hv.isError_eq_false]
      refine (Expr.upholdsAll hcall scope rest hrest).bind (fun message => resigns_pure message _)
        fun result hresult => ?_
      cases result with
      | error e => exact hresult.elim
      | ok vs => exact upholds_pure (List.forall_mem_cons.mpr ⟨hv.fits hmay, hresult⟩)

theorem Stmt.upholds (hcall : CallsUphold std call) (scope : ScopeId) :
    (s : Stmt) → s.obeys std = true →
      Upholds std (s.record call scope) (Value.Passes std s.returns) Value.error
  | .bind text value, ho => by
      rw [Stmt.obeys, Bool.and_eq_true] at ho
      refine (value.upholds hcall scope ho.2).unlessError fun v hv => ?_
      exact upholds_happen (hv.fits ho.1) (Or.inl (hv.fits ho.1))
  | .ret value, ho => by
      rw [Stmt.obeys, Bool.and_eq_true] at ho
      refine (value.upholds hcall scope ho.2).unlessError fun v hv => ?_
      refine Upholds.first fun h => ⟨.numbered, h.serial, rfl, trivial, fun _ => ?_⟩
      exact upholds_pure (Or.inr ⟨rfl, h.serial, v, rfl, hv.fits ho.1⟩)
  | .expr expression, ho => by
      refine (expression.upholds hcall scope ho).mono fun _ h => h.mono fun hmay => ?_
      cases expression with
      | conditional condition consequence alternative => exact hmay
      | _ => cases hmay
  | .block body, ho =>
      (Stmt.upholdsAll hcall scope body ho .null (Value.fits_plain rfl rfl)).closing scope body

theorem Stmt.upholdsAll (hcall : CallsUphold std call) (scope : ScopeId) :
    (body : List Stmt) → Stmt.obeysAll std body = true → (last : Value) → last.Fits std →
      Upholds std (Stmt.recordAll call scope last body)
        (Value.Passes std (Stmt.returnsAmong body)) Value.error
  | [], _, last, hlast => upholds_pure (Or.inl hlast)
  | s :: rest, ho, last, hlast => by
      rw [Stmt.obeysAll, Bool.and_eq_true] at ho
      refine (s.upholds hcall scope ho.1).bind (fun message => resigns_pure message _) fun v hv => ?_
      by_cases hstops : v.stops = true
      · rw [if_pos hstops]
        refine upholds_pure (hv.mono fun hreturns => ?_)
        simp [Stmt.returnsAmong, hreturns]
      · rw [if_neg hstops]
        have hfits := hv.fits_of_not_stops hstops
        refine (Stmt.upholdsAll hcall scope rest ho.2 v hfits).mono ?_
        intro w hw
        refine hw.mono fun hreturns => ?_
        simp [Stmt.returnsAmong, hreturns]

end

end Evaluations

section Runs

variable {std : Standard}

/-- Calls are made by a function, which makes its scope, runs its body and leaves the scope, or they
are operations. -/
theorem recordWithin_upholds (depth : Nat) : CallsUphold std (recordWithin depth) := by
  induction depth with
  | zero =>
      intro f arguments _ harguments hmeasured
      cases f with
      | function f =>
          intro h _ _
          refine Or.inl ⟨by simp [recordWithin, Recorded.halt], ?_⟩
          intro v hv
          cases hv
      | builtin b => exact upholds_result (Value.fitOrError_call harguments hmeasured) id
      | _ => exact upholds_result (Value.fitOrError_error _) id
  | succ depth ih =>
      intro f arguments hf harguments hmeasured
      cases f with
      | function f =>
          have hf : (Value.function f).Fits std := hf.fits_of_not_stops (by simp [Value.stops])
          have hbody : Stmt.obeysAll std f.body = true := hf _ (Value.self_mem_parts _)
          refine Upholds.first fun h => ⟨.entered h.next f arguments, h.next, rfl, ⟨hf, harguments⟩, ?_⟩
          intro _
          have hblock := (Stmt.upholdsAll ih h.next f.body hbody .null
            (Value.fits_plain rfl rfl)).closing h.next f.body
          refine hblock.bind (fun message => resigns_happen trivial) fun v hv => ?_
          exact upholds_happen trivial hv.unwrapped
      | builtin b => exact upholds_result (Value.fitOrError_call harguments hmeasured) id
      | _ => exact upholds_result (Value.fitOrError_error _) id

theorem Node.upholds {call : RecordedCaller} (hcall : CallsUphold std call) (scope : ScopeId)
    (n : Node) (hn : n.obeys std = true) :
    Upholds std (n.record call scope) (Value.Passes std n.mayReturn) Value.error := by
  cases n with
  | program p =>
      have hbody := Stmt.upholdsAll hcall scope p.statements hn .null (Value.fits_plain rfl rfl)
      exact hbody.bind (fun message => resigns_pure message _) fun v hv =>
        upholds_pure (Or.inl hv.unwrapped)
  | statement s => exact s.upholds hcall scope hn
  | expression e => exact e.upholds hcall scope hn

/-- Evaluating a phrase that obeys a standard upholds it. -/
theorem recordEvaluate_upholds (settings : Settings) (scope : ScopeId) {n : Node} {h : Heap}
    (hn : n.obeys std = true) (hh : h.Fits std)
    (hmeasured : ∀ event ∈ (recordEvaluate settings scope n h).1, event.measured std = true) :
    Settled std (Value.Passes std n.mayReturn) Value.error
      (recordEvaluate settings scope n h) := by
  obtain ⟨failure, hfails⟩ | ⟨depth, hrecord⟩ := recordEvaluate_cases settings scope n h
  · rw [hfails]
    exact Or.inl ⟨by simp, fun v hv => by cases hv⟩
  · rw [hrecord] at hmeasured ⊢
    exact (n.upholds (recordWithin_upholds depth) scope hn h hh hmeasured).mapError _

theorem recordRun_upholds (settings : Settings) (scope : ScopeId) {source : String} {h : Heap}
    (hsource : ∀ p, parse source = .ok ⟨p, []⟩ → Stmt.obeysAll std p.statements = true)
    (hh : h.Fits std)
    (hmeasured : ∀ event ∈ (recordRun settings scope source h).1, event.measured std = true) :
    Settled std (Value.Passes std false) Value.error (recordRun settings scope source h) := by
  obtain ⟨failure, hfails⟩ | ⟨p, hparse, hrun⟩ := recordRun_cases settings scope source h
  · rw [hfails]
    exact Or.inl ⟨by simp, fun v hv => by cases hv⟩
  · rw [hrun] at hmeasured ⊢
    exact recordEvaluate_upholds settings scope (hsource p hparse) hh hmeasured

theorem Settled.proper {ε α : Type} {Q : α → Prop} {failed : String → α}
    {result : List Event × Except ε α} (h : Settled std Q failed result) :
    ∀ event ∈ result.1, event.Proper std := by
  intro event hmem
  rcases h with ⟨hevents, -⟩ | ⟨message, calm, unwinding, rfl, hcalm, hunwinding⟩
  · exact Or.inl (hevents event hmem)
  · rcases List.mem_append.mp hmem with hmem | hmem
    · exact Or.inl (hcalm event hmem)
    · cases unwinding with
      | nil => cases hmem
      | cons first rest =>
          rcases List.mem_cons.mp hmem with rfl | hmem
          · exact Or.inr ⟨message, hunwinding.1⟩
          · exact Or.inr ⟨message, Or.inr (hunwinding.2 event hmem)⟩

theorem Settled.value {ε : Type} {may : Bool} {result : List Event × Except ε Value}
    (h : Settled std (Value.Passes std may) Value.error result) {v : Value}
    (hv : result.2 = .ok v) : (∃ message, v = .error message) ∨ v.Passes std may := by
  rcases h with ⟨-, hvalue⟩ | ⟨message, calm, unwinding, rfl, -⟩
  · exact Or.inr (hvalue v hv)
  · cases hv
    exact Or.inl ⟨message, rfl⟩

theorem Session.fits_new (builtins : Registry) : (Session.new builtins).heap.Fits std := by
  intro v hv
  rcases Heap.holds_add hv with ⟨name, hname⟩ | ⟨j, s, hs, -⟩
  · cases hname
  · simp [Heap.empty] at hs

/-- In a session whose sources obey a standard every event is proper, and every run that ends in a
value ends in a fit one or an error. -/
theorem Session.history_upholds {s : Session} {sources : List (Settings × String)}
    (hsources : ∀ run ∈ sources, ∀ p, parse run.2 = .ok ⟨p, []⟩ →
      Stmt.obeysAll std p.statements = true)
    (hs : s.heap.Fits std)
    (hmeasured : ∀ event ∈ s.history sources, event.measured std = true) :
    (∀ event ∈ s.history sources, event.Proper std) ∧
      ∀ v, .ok v ∈ (s.runAll sources).1 → v.FitOrError std := by
  induction sources generalizing s with
  | nil => exact ⟨by simp [history], by simp [runAll]⟩
  | cons source rest ih =>
      obtain ⟨settings, source⟩ := source
      rw [history] at hmeasured ⊢
      obtain ⟨hnow, hlater⟩ := List.forall_mem_append.mp hmeasured
      have hrun := recordRun_upholds settings s.scope (hsources _ List.mem_cons_self) hs hnow
      have hafter : (s.run settings source).2.heap.Fits std := by
        rw [heap_run]
        exact fits_replay hrun.proper hs
      obtain ⟨hmore, hresults⟩ :=
        ih (fun run hmem => hsources run (List.mem_cons_of_mem _ hmem)) hafter hlater
      refine ⟨List.forall_mem_append.mpr ⟨hrun.proper, hmore⟩, ?_⟩
      intro v hv
      rcases mem_runAll_cons hv with hv | hv
      · rcases hrun.value hv with herror | hpasses
        · exact Or.inl herror
        · exact Or.inr (hpasses.fits (Bool.or_true _))
      · exact hresults v hv

end Runs

end Scriptlet
