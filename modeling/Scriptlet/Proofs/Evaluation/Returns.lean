import Scriptlet.Proofs.Evaluation.Contents
import Scriptlet.Proofs.Evaluation.Preservation

/-!
# Where returned values go

What a `return` carries is a value, and everything but blocks, programs and calls passes it on
unchecked.  It stays where it belongs if programs are disciplined: no conditional whose value is used
contains a `return`, outside the functions in it.

**The invariant.**  A value is *clean* if none of its parts is a returned value, and every function
among its parts has a disciplined body.  `Maintains x Q`: from a heap that holds clean values only, every
event of `x` is about clean values, and what `x` yields satisfies `Q`.  A conditional and a block may
also yield a returned value, whose content is clean, but only if they contain a `return`.

**Result.**  `returned_values_stay_in_blocks`: in a session of disciplined sources no stored value, no
argument, no element of an array and no result of a call or program is or contains a returned value.
-/

namespace Scriptlet

section Discipline

mutual

/-- Whether an expression contains a `return`, outside functions. -/
def Expr.returns : Expr → Bool
  | .unary _ right => right.returns
  | .binary left _ right => left.returns || right.returns
  | .conditional condition consequence alternative =>
      condition.returns || Stmt.returnsAmong consequence ||
        (match alternative with
          | none => false
          | some block => Stmt.returnsAmong block)
  | .call callee arguments => callee.returns || Expr.returnsAmong arguments
  | .array elements => Expr.returnsAmong elements
  | .index left subscript => left.returns || subscript.returns
  | .hash pairs => Expr.returnsInPairs pairs
  | _ => false

/-- Whether a statement is or contains a `return`, outside functions. -/
def Stmt.returns : Stmt → Bool
  | .bind _ value => value.returns
  | .ret _ => true
  | .expr expression => expression.returns
  | .block body => Stmt.returnsAmong body

/-- Whether a block contains a `return`, outside functions. -/
def Stmt.returnsAmong : List Stmt → Bool
  | [] => false
  | s :: rest => s.returns || Stmt.returnsAmong rest

/-- Whether one of several expressions contains a `return`, outside functions. -/
def Expr.returnsAmong : List Expr → Bool
  | [] => false
  | e :: rest => e.returns || Expr.returnsAmong rest

/-- Whether pairs contain a `return`, outside functions. -/
def Expr.returnsInPairs : List (Expr × Expr) → Bool
  | [] => false
  | (key, value) :: rest => key.returns || (value.returns || Expr.returnsInPairs rest)

end

/-- Whether an expression is a conditional that contains a `return`, outside functions. -/
def Expr.mayReturn : Expr → Bool
  | .conditional condition consequence alternative =>
      (Expr.conditional condition consequence alternative).returns
  | _ => false

mutual

/-- Whether no conditional in the expression whose value is used contains a `return`. -/
def Expr.disciplined : Expr → Bool
  | .unary _ right => !right.mayReturn && right.disciplined
  | .binary left _ right =>
      !left.mayReturn && left.disciplined && (!right.mayReturn && right.disciplined)
  | .conditional condition consequence alternative =>
      !condition.mayReturn && condition.disciplined && Stmt.disciplinedAll consequence &&
        (match alternative with
          | none => true
          | some block => Stmt.disciplinedAll block)
  | .function _ body => Stmt.disciplinedAll body
  | .call callee arguments =>
      !callee.mayReturn && callee.disciplined && Expr.disciplinedAll arguments
  | .array elements => Expr.disciplinedAll elements
  | .index left subscript =>
      !left.mayReturn && left.disciplined && (!subscript.mayReturn && subscript.disciplined)
  | .hash pairs => Expr.disciplinedPairs pairs
  | _ => true

/-- Whether no conditional in the statement whose value is used contains a `return`. -/
def Stmt.disciplined : Stmt → Bool
  | .bind _ value => !value.mayReturn && value.disciplined
  | .ret value => !value.mayReturn && value.disciplined
  | .expr expression => expression.disciplined
  | .block body => Stmt.disciplinedAll body

/-- Whether every statement of a block is disciplined. -/
def Stmt.disciplinedAll : List Stmt → Bool
  | [] => true
  | s :: rest => s.disciplined && Stmt.disciplinedAll rest

/-- Whether several expressions, whose values are used, are disciplined. -/
def Expr.disciplinedAll : List Expr → Bool
  | [] => true
  | e :: rest => !e.mayReturn && e.disciplined && Expr.disciplinedAll rest

/-- Whether the pairs of a hash literal, which are never evaluated, are disciplined. -/
def Expr.disciplinedPairs : List (Expr × Expr) → Bool
  | [] => true
  | (key, value) :: rest => key.disciplined && value.disciplined && Expr.disciplinedPairs rest

end

/-- Whether no conditional in a program whose value is used contains a `return`. -/
def Program.disciplined (p : Program) : Bool :=
  Stmt.disciplinedAll p.statements

end Discipline

namespace Value

/-- Neither the value nor anything in it is a returned value. -/
def ReturnFree (v : Value) : Prop :=
  ∀ w ∈ v.parts, w.kind ≠ .returned

/-- A part that is not a returned value, and has a disciplined body if it is a function. -/
def cleanPart : Value → Bool
  | returned _ _ => false
  | function f => Stmt.disciplinedAll f.body
  | _ => true

/-- Every part of the value is clean. -/
def Clean (v : Value) : Prop :=
  ∀ w ∈ v.parts, w.cleanPart = true

theorem Clean.returnFree {v : Value} (hv : v.Clean) : v.ReturnFree := by
  intro w hw hkind
  have hclean := hv w hw
  cases w with
  | returned serial value => cases hclean
  | _ => cases hkind

theorem clean_plain {v : Value} (hparts : v.parts = [v]) (hclean : v.cleanPart = true) :
    v.Clean := by
  intro w hw
  rw [hparts, List.mem_singleton] at hw
  rw [hw]
  exact hclean

theorem clean_array {items : List Value} (h : ∀ v ∈ items, v.Clean) : (array items).Clean := by
  intro w hw
  rcases mem_parts_array.mp hw with rfl | ⟨v, hv, hw⟩
  · rfl
  · exact h v hv w hw

/-- What is made of clean values is clean. -/
theorem MadeOf.clean {others : List Value} {v : Value} (hv : MadeOf others v)
    (hothers : ∀ other ∈ others, other.Clean) : v.Clean := by
  intro w hw
  rcases hv w hw with ⟨other, hother, hw⟩ | hdata
  · exact hothers other hother w hw
  · cases w with
    | function f => cases hdata
    | returned serial value => cases hdata
    | _ => rfl

/-- The value is clean, or a returned one with a clean content. -/
def Carried (v : Value) : Prop :=
  v.Clean ∨ ∃ serial w, v = returned serial w ∧ w.Clean

/-- A carried value that does not end a block is clean. -/
theorem Carried.clean_of_not_stops {v : Value} (hv : v.Carried) (hstops : ¬v.stops = true) :
    v.Clean := by
  rcases hv with hv | ⟨serial, w, rfl, -⟩
  · exact hv
  · exact absurd rfl hstops

theorem Carried.unwrapped {v : Value} (hv : v.Carried) : v.unwrapped.Clean := by
  rcases hv with hv | ⟨serial, w, rfl, hw⟩
  · cases v with
    | returned serial w =>
        have hself := hv _ (self_mem_parts _)
        cases hself
    | _ => exact hv
  · exact hw

end Value

namespace Event

/-- Every value the event is about has the property; of the value of a block or expression, its
content if it is a returned one. -/
def About (P : Value → Prop) : Event → Prop
  | numbered => True
  | bound _ _ v => P v
  | calling f arguments => P f ∧ ∀ v ∈ arguments, P v
  | entered _ f arguments => P (.function f) ∧ ∀ v ∈ arguments, P v
  | closed _ _ v => P v.unwrapped
  | left _ => True
  | called _ v => P v
  | yielded _ _ v => P v.unwrapped

theorem About.mono {P Q : Value → Prop} (hPQ : ∀ v, P v → Q v) {event : Event}
    (h : event.About P) : event.About Q := by
  cases event with
  | numbered => trivial
  | bound scope name v => exact hPQ v h
  | calling f arguments => exact ⟨hPQ f h.1, fun v hv => hPQ v (h.2 v hv)⟩
  | entered scope f arguments => exact ⟨hPQ _ h.1, fun v hv => hPQ v (h.2 v hv)⟩
  | closed scope body v => exact hPQ _ h
  | left scope => trivial
  | called f v => exact hPQ v h
  | yielded scope e v => exact hPQ _ h

end Event

/-- Every value the heap holds is clean. -/
def Heap.Clean (h : Heap) : Prop :=
  ∀ v, h.Holds v → v.Clean

theorem Event.clean_apply {event : Event} {h : Heap} (hevent : event.About Value.Clean)
    (hh : h.Clean) : (event.apply h).Clean := by
  cases event with
  | bound scope name v =>
      intro w hw
      rcases Heap.holds_bind hw with rfl | hw
      · exact hevent
      · exact hh w hw
  | entered scope f arguments =>
      intro w hw
      rcases Heap.holds_addInside hw with hw | rfl | hw
      · exact hevent.2 w hw
      · exact Value.clean_plain rfl rfl
      · exact hh w hw
  | _ => exact hh

theorem clean_replay {events : List Event} {h : Heap}
    (hevents : ∀ event ∈ events, event.About Value.Clean) (hh : h.Clean) :
    (replay events h).Clean :=
  replay_preserves (fun _ _ => Event.clean_apply) hevents hh

section Evaluations

variable {α β : Type}

/-- From a clean heap, every event is about clean values and what is yielded has the property. -/
def Maintains (x : Recorded α) (Q : α → Prop) : Prop :=
  ∀ h : Heap, h.Clean →
    (∀ event ∈ (x h).1, event.About Value.Clean) ∧ ∀ a, (x h).2 = .ok a → Q a

variable {Q : α → Prop} {R : β → Prop}

theorem maintains_pure {a : α} (ha : Q a) : Maintains (pure a) Q :=
  preserves_pure ha

theorem Maintains.mono {Q' : α → Prop} {x : Recorded α} (hx : Maintains x Q)
    (h : ∀ a, Q a → Q' a) : Maintains x Q' :=
  Preserves.mono hx h

theorem Maintains.bind {x : Recorded α} {f : α → Recorded β} (hx : Maintains x Q)
    (hf : ∀ a, Q a → Maintains (f a) R) : Maintains (x >>= f) R :=
  Preserves.bind (fun _ _ => Event.clean_apply) hx hf

theorem maintains_happen (event : Event) (hevent : event.About Value.Clean) :
    Maintains (Recorded.happen event) fun _ => True :=
  preserves_happen hevent

theorem Maintains.noting {x : Recorded Value} {event : Value → Event} {Q : Value → Prop}
    (hx : Maintains x Q) (hevent : ∀ v, Q v → (event v).About Value.Clean) :
    Maintains (Recorded.noting event x) Q :=
  Preserves.noting (fun _ _ => Event.clean_apply) hx hevent

/-- An error that is handed on is clean. -/
theorem Maintains.unlessError {x : Recorded Value} {f : Value → Recorded Value}
    {Q : Value → Prop} (hx : Maintains x Value.Clean) (hQ : ∀ v, v.Clean → Q v)
    (hf : ∀ v, v.Clean → Maintains (f v) Q) : Maintains (Recorded.unlessError x f) Q :=
  Preserves.unlessError (fun _ _ => Event.clean_apply) hx hQ hf

theorem maintains_newSerial : Maintains Recorded.newSerial fun _ => True :=
  preserves_newSerial trivial

theorem maintains_name (scope : ScopeId) (text : String) :
    Maintains (Recorded.name scope text) Value.Clean := by
  intro h hh
  refine ⟨by simp [Recorded.name], ?_⟩
  intro v hv
  cases hv
  cases hresolve : h.resolve scope text with
  | none => exact Value.clean_plain rfl rfl
  | some v =>
      rcases Heap.holds_resolve hresolve with hholds | ⟨b, rfl⟩
      · exact hh v hholds
      · exact Value.clean_plain rfl rfl

/-- What a phrase comes to: a clean value, or a carried one if the phrase may return. -/
def Outcome (may : Bool) (v : Value) : Prop :=
  v.Clean ∨ (may = true ∧ v.Carried)

theorem Outcome.carried {may : Bool} {v : Value} (h : Outcome may v) : v.Carried := by
  rcases h with h | ⟨-, h⟩
  · exact Or.inl h
  · exact h

theorem Outcome.mono {may may' : Bool} {v : Value} (h : Outcome may v)
    (hmay : may = true → may' = true) : Outcome may' v := by
  rcases h with h | ⟨htrue, h⟩
  · exact Or.inl h
  · exact Or.inr ⟨hmay htrue, h⟩

/-- The values of expressions, or the first error among them. -/
def CleanAll : Except Value (List Value) → Prop
  | .error v => v.Clean
  | .ok vs => ∀ v ∈ vs, v.Clean

/-- The value of an expression that does not return is used. -/
theorem Maintains.used {x : Recorded Value} {may : Bool} (hx : Maintains x (Outcome may))
    (hmay : (!may) = true) : Maintains x Value.Clean := by
  refine hx.mono ?_
  intro v hv
  rcases hv with hv | ⟨htrue, -⟩
  · exact hv
  · rw [htrue] at hmay
    cases hmay

theorem Maintains.yielding {x : Recorded Value} {scope : ScopeId} {e : Expr} {may : Bool}
    (hx : Maintains x (Outcome may)) :
    Maintains (Recorded.noting (.yielded scope e) x) (Outcome may) :=
  hx.noting fun _ hv => hv.carried.unwrapped

theorem Maintains.closing {x : Recorded Value} {scope : ScopeId} {body : Block} {may : Bool}
    (hx : Maintains x (Outcome may)) :
    Maintains (Recorded.noting (.closed scope body) x) (Outcome may) :=
  hx.noting fun _ hv => hv.carried.unwrapped

theorem maintains_clean {may : Bool} {v : Value} (hv : v.Clean) :
    Maintains (pure v) (Outcome may) :=
  maintains_pure (Or.inl hv)

variable {call : RecordedCaller}

/-- Calls of clean values with clean arguments come to clean values. -/
def CallsClean (call : RecordedCaller) : Prop :=
  ∀ f arguments, f.Clean → (∀ v ∈ arguments, v.Clean) → Maintains (call f arguments) Value.Clean

mutual

theorem Expr.maintains (hcall : CallsClean call) (scope : ScopeId) :
    (e : Expr) → e.disciplined = true → Maintains (e.record call scope) (Outcome e.mayReturn)
  | .ident text, _ => ((maintains_name scope text).mono fun _ => Or.inl).yielding
  | .integer value, _ => (maintains_clean (Value.clean_plain rfl rfl)).yielding
  | .boolean value, _ => (maintains_clean (Value.clean_plain rfl rfl)).yielding
  | .string value, _ => (maintains_clean (Value.clean_plain rfl rfl)).yielding
  | .unary op right, hd => by
      rw [Expr.disciplined, Bool.and_eq_true] at hd
      have hright := (right.maintains hcall scope hd.2).used hd.1
      refine Maintains.yielding ?_
      refine hright.unlessError (fun _ => Or.inl) fun v _ => ?_
      have hmade : Value.MadeOf [] (applyUnary op v) := Value.madeOf_applyUnary op v
      exact maintains_clean (hmade.clean (by simp))
  | .binary left op right, hd => by
      simp only [Expr.disciplined, Bool.and_eq_true] at hd
      obtain ⟨⟨hl, hleft⟩, hr, hright⟩ := hd
      have hleft := (left.maintains hcall scope hleft).used hl
      have hright := (right.maintains hcall scope hright).used hr
      refine Maintains.yielding ?_
      refine hleft.unlessError (fun _ => Or.inl) fun a _ => ?_
      refine hright.unlessError (fun _ => Or.inl) fun b _ => ?_
      have hmade : Value.MadeOf [] (applyBinary op a b) := Value.madeOf_applyBinary op a b
      exact maintains_clean (hmade.clean (by simp))
  | .conditional condition consequence none, hd => by
      simp only [Expr.disciplined, Bool.and_eq_true] at hd
      obtain ⟨⟨⟨hc, hcondition⟩, hthen⟩, -⟩ := hd
      have hcondition := (condition.maintains hcall scope hcondition).used hc
      have hthen := Stmt.maintainsAll hcall scope consequence hthen .null
        (Value.clean_plain rfl rfl)
      refine Maintains.yielding ?_
      refine hcondition.unlessError (fun _ => Or.inl) fun v _ => ?_
      by_cases hv : v.truthy = true
      · rw [if_pos hv]
        refine hthen.closing.mono fun _ h => h.mono fun hreturns => ?_
        simp [Expr.mayReturn, Expr.returns, hreturns]
      · rw [if_neg hv]
        exact maintains_clean (Value.clean_plain rfl rfl)
  | .conditional condition consequence (some block), hd => by
      simp only [Expr.disciplined, Bool.and_eq_true] at hd
      obtain ⟨⟨⟨hc, hcondition⟩, hthen⟩, helse⟩ := hd
      have hcondition := (condition.maintains hcall scope hcondition).used hc
      have hthen := Stmt.maintainsAll hcall scope consequence hthen .null
        (Value.clean_plain rfl rfl)
      have helse := Stmt.maintainsAll hcall scope block helse .null (Value.clean_plain rfl rfl)
      refine Maintains.yielding ?_
      refine hcondition.unlessError (fun _ => Or.inl) fun v _ => ?_
      by_cases hv : v.truthy = true
      · rw [if_pos hv]
        refine hthen.closing.mono fun _ h => h.mono fun hreturns => ?_
        simp [Expr.mayReturn, Expr.returns, hreturns]
      · rw [if_neg hv]
        refine helse.closing.mono fun _ h => h.mono fun hreturns => ?_
        simp [Expr.mayReturn, Expr.returns, hreturns]
  | .function parameters body, hd => by
      refine Maintains.yielding ?_
      refine maintains_newSerial.bind fun serial _ => ?_
      exact maintains_clean (Value.clean_plain rfl hd)
  | .call callee arguments, hd => by
      simp only [Expr.disciplined, Bool.and_eq_true] at hd
      obtain ⟨⟨hc, hcallee⟩, harguments⟩ := hd
      have hcallee := (callee.maintains hcall scope hcallee).used hc
      have harguments := Expr.maintainsAll hcall scope arguments harguments
      refine Maintains.yielding ?_
      refine hcallee.unlessError (fun _ => Or.inl) fun f hf => ?_
      refine harguments.bind fun result hresult => ?_
      cases result with
      | error e => exact maintains_clean hresult
      | ok vs =>
          refine (maintains_happen (.calling f vs) ⟨hf, hresult⟩).bind fun _ _ => ?_
          refine Maintains.mono ?_ fun _ => Or.inl
          exact (hcall f vs hf hresult).noting fun _ hv => hv
  | .array elements, hd => by
      refine Maintains.yielding ?_
      refine (Expr.maintainsAll hcall scope elements hd).bind fun result hresult => ?_
      cases result with
      | error e => exact maintains_clean hresult
      | ok vs => exact maintains_clean (Value.clean_array hresult)
  | .index left subscript, hd => by
      simp only [Expr.disciplined, Bool.and_eq_true] at hd
      obtain ⟨⟨hl, hleft⟩, hs, hsubscript⟩ := hd
      have hleft := (left.maintains hcall scope hleft).used hl
      have hsubscript := (subscript.maintains hcall scope hsubscript).used hs
      refine Maintains.yielding ?_
      refine hleft.unlessError (fun _ => Or.inl) fun a ha => ?_
      refine hsubscript.unlessError (fun _ => Or.inl) fun b _ => ?_
      exact maintains_clean ((Value.madeOf_applyIndex a b).clean (by simpa using ha))
  | .hash pairs, _ => (maintains_clean (Value.clean_plain rfl rfl)).yielding
  | .foreign typeName, _ => (maintains_clean (Value.clean_plain rfl rfl)).yielding

theorem Expr.maintainsAll (hcall : CallsClean call) (scope : ScopeId) :
    (es : List Expr) → Expr.disciplinedAll es = true →
      Maintains (Expr.recordAll call scope es) CleanAll
  | [], _ => maintains_pure (by simp [CleanAll])
  | e :: rest, hd => by
      simp only [Expr.disciplinedAll, Bool.and_eq_true] at hd
      obtain ⟨⟨hm, hfirst⟩, hrest⟩ := hd
      have hfirst := (e.maintains hcall scope hfirst).used hm
      have hrest := Expr.maintainsAll hcall scope rest hrest
      refine hfirst.bind fun v hv => ?_
      by_cases herror : v.isError = true
      · rw [if_pos herror]
        exact maintains_pure hv
      · rw [if_neg herror]
        refine hrest.bind fun result hresult => ?_
        cases result with
        | error e => exact maintains_pure hresult
        | ok vs => exact maintains_pure (List.forall_mem_cons.mpr ⟨hv, hresult⟩)

theorem Stmt.maintains (hcall : CallsClean call) (scope : ScopeId) :
    (s : Stmt) → s.disciplined = true → Maintains (s.record call scope) (Outcome s.returns)
  | .bind text value, hd => by
      rw [Stmt.disciplined, Bool.and_eq_true] at hd
      have hvalue := (value.maintains hcall scope hd.2).used hd.1
      refine hvalue.unlessError (fun _ => Or.inl) fun v hv => ?_
      exact (maintains_happen (.bound scope text v) hv).bind fun _ _ => maintains_clean hv
  | .ret value, hd => by
      rw [Stmt.disciplined, Bool.and_eq_true] at hd
      have hvalue := (value.maintains hcall scope hd.2).used hd.1
      refine hvalue.unlessError (fun _ => Or.inl) fun v hv => ?_
      refine maintains_newSerial.bind fun serial _ => ?_
      exact maintains_pure (Or.inr ⟨rfl, Or.inr ⟨serial, v, rfl, hv⟩⟩)
  | .expr expression, hd => by
      refine (expression.maintains hcall scope hd).mono fun _ h => h.mono fun hmay => ?_
      cases expression with
      | conditional condition consequence alternative => exact hmay
      | _ => cases hmay
  | .block body, hd =>
      (Stmt.maintainsAll hcall scope body hd .null (Value.clean_plain rfl rfl)).closing

theorem Stmt.maintainsAll (hcall : CallsClean call) (scope : ScopeId) :
    (body : List Stmt) → Stmt.disciplinedAll body = true → (last : Value) → last.Clean →
      Maintains (Stmt.recordAll call scope last body) (Outcome (Stmt.returnsAmong body))
  | [], _, last, hlast => maintains_clean hlast
  | s :: rest, hd, last, hlast => by
      rw [Stmt.disciplinedAll, Bool.and_eq_true] at hd
      refine (s.maintains hcall scope hd.1).bind fun v hv => ?_
      by_cases hstops : v.stops = true
      · rw [if_pos hstops]
        refine maintains_pure (hv.mono fun hreturns => ?_)
        simp [Stmt.returnsAmong, hreturns]
      · rw [if_neg hstops]
        have hclean := hv.carried.clean_of_not_stops hstops
        refine (Stmt.maintainsAll hcall scope rest hd.2 v hclean).mono ?_
        intro w hw
        refine hw.mono fun hreturns => ?_
        simp [Stmt.returnsAmong, hreturns]

end

end Evaluations

theorem maintains_enter {f : Closure} {arguments : List Value} (hf : (Value.function f).Clean)
    (harguments : ∀ v ∈ arguments, v.Clean) :
    Maintains (Recorded.enter f arguments) fun _ => True := by
  intro h _
  refine ⟨?_, fun _ _ => trivial⟩
  intro event hmem
  rw [Recorded.enter, List.mem_singleton] at hmem
  rw [hmem]
  exact ⟨hf, harguments⟩

theorem recordWithin_clean (depth : Nat) : CallsClean (recordWithin depth) := by
  induction depth with
  | zero =>
      intro f arguments hf harguments
      cases f with
      | function f =>
          intro h _
          refine ⟨by simp [recordWithin, Recorded.halt], ?_⟩
          intro v hv
          cases hv
      | builtin b => exact maintains_pure ((Value.madeOf_call b arguments).clean harguments)
      | _ => exact maintains_pure (Value.clean_plain rfl rfl)
  | succ depth ih =>
      intro f arguments hf harguments
      cases f with
      | function f =>
          have hbody : Stmt.disciplinedAll f.body = true := hf _ (Value.self_mem_parts _)
          refine (maintains_enter hf harguments).bind fun scope _ => ?_
          have hblock : Maintains (Stmt.recordBlock (recordWithin depth) scope f.body)
              (Outcome (Stmt.returnsAmong f.body)) :=
            (Stmt.maintainsAll ih scope f.body hbody .null (Value.clean_plain rfl rfl)).closing
          refine hblock.bind fun v hv => ?_
          refine (maintains_happen (.left scope) trivial).bind fun _ _ => ?_
          exact maintains_pure hv.carried.unwrapped
      | builtin b => exact maintains_pure ((Value.madeOf_call b arguments).clean harguments)
      | _ => exact maintains_pure (Value.clean_plain rfl rfl)

section Runs

/-- A disciplined program comes to a clean value. -/
theorem recordEvaluate_clean (settings : Settings) (scope : ScopeId) {p : Program} {h : Heap}
    (hp : p.disciplined = true) (hh : h.Clean) :
    (∀ event ∈ (recordEvaluate settings scope (.program p) h).1, event.About Value.Clean) ∧
      ∀ v, (recordEvaluate settings scope (.program p) h).2 = .ok v → v.Clean := by
  obtain ⟨failure, hfails⟩ | ⟨depth, hrecord⟩ :=
    recordEvaluate_cases settings scope (.program p) h
  · rw [hfails]
    exact ⟨by simp, fun v hv => by cases hv⟩
  · have hbody := Stmt.maintainsAll (recordWithin_clean depth) scope p.statements hp .null
      (Value.clean_plain rfl rfl)
    have hprogram : Maintains ((Node.program p).record (recordWithin depth) scope) Value.Clean :=
      hbody.bind fun v hv => maintains_pure hv.carried.unwrapped
    obtain ⟨hevents, hvalue⟩ := hprogram h hh
    rw [hrecord]
    exact ⟨hevents, fun v hv => hvalue v (eq_ok_of_mapError hv)⟩

/-- Whether a source is read without errors, as a disciplined program. -/
def disciplinedSource (source : String) : Bool :=
  match parse source with
  | .ok ⟨p, []⟩ => p.disciplined
  | _ => false

theorem recordRun_clean (settings : Settings) (scope : ScopeId) {source : String} {h : Heap}
    (hsource : disciplinedSource source = true) (hh : h.Clean) :
    (∀ event ∈ (recordRun settings scope source h).1, event.About Value.Clean) ∧
      ∀ v, (recordRun settings scope source h).2 = .ok v → v.Clean := by
  unfold disciplinedSource at hsource
  split at hsource
  · next p hparse =>
      rw [recordRun, hparse]
      exact recordEvaluate_clean settings scope hsource hh
  · cases hsource

/-- In a session of disciplined sources every event is about clean values, and every run that ends in
a value ends in a clean one. -/
theorem Session.history_clean {s : Session} {sources : List (Settings × String)}
    (hsources : ∀ run ∈ sources, disciplinedSource run.2 = true) (hs : s.heap.Clean) :
    (∀ event ∈ s.history sources, event.About Value.Clean) ∧
      ∀ v, .ok v ∈ (s.runAll sources).1 → v.Clean := by
  induction sources generalizing s with
  | nil => exact ⟨by simp [history], by simp [runAll]⟩
  | cons source rest ih =>
      obtain ⟨settings, source⟩ := source
      obtain ⟨hevents, hvalue⟩ := recordRun_clean settings s.scope
        (hsources _ List.mem_cons_self) hs
      have hafter : (s.run settings source).2.heap.Clean := by
        rw [heap_run]
        exact clean_replay hevents hs
      obtain ⟨hmore, hresults⟩ :=
        ih (fun run hrun => hsources run (List.mem_cons_of_mem _ hrun)) hafter
      refine ⟨?_, ?_⟩
      · intro event hmem
        rw [history] at hmem
        rcases List.mem_append.mp hmem with hmem | hmem
        · exact hevents event hmem
        · exact hmore event hmem
      · intro v hv
        rcases mem_runAll_cons hv with hv | hv
        · exact hvalue v hv
        · exact hresults v hv

/-- In a session of sources that are read without errors and are disciplined, no result of a program
or a call is a returned value, what a block returns carries no returned value, and no returned value
is ever stored, passed or put into an array. -/
theorem returned_values_stay_in_blocks (builtins : Registry) {sources : List (Settings × String)}
    (hsources : ∀ run ∈ sources, disciplinedSource run.2 = true) :
    (∀ v, .ok v ∈ ((Session.new builtins).runAll sources).1 → v.ReturnFree) ∧
      ((Session.new builtins).runAll sources).2.heap =
        replay ((Session.new builtins).history sources) (Session.new builtins).heap ∧
      (∀ event ∈ (Session.new builtins).history sources, event.About Value.ReturnFree) ∧
      ∀ before after, (Session.new builtins).history sources = before ++ after →
        ∀ v, (replay before (Session.new builtins).heap).Holds v → v.ReturnFree := by
  have hstart : (Session.new builtins).heap.Clean := by
    intro v hv
    rcases Heap.holds_add hv with ⟨name, hname⟩ | ⟨j, s, hs, -⟩
    · cases hname
    · simp [Heap.empty] at hs
  obtain ⟨hevents, hresults⟩ := Session.history_clean hsources hstart
  refine ⟨?_, Session.heap_runAll _ sources, ?_, ?_⟩
  · intro v hv
    exact (hresults v hv).returnFree
  · intro event hmem
    exact (hevents event hmem).mono fun v hv => hv.returnFree
  · intro before after hhistory v hv
    rw [hhistory] at hevents
    have hbefore : ∀ event ∈ before, event.About Value.Clean :=
      fun event hmem => hevents event (List.mem_append_left _ hmem)
    exact (clean_replay hbefore hstart v hv).returnFree

/-- A function that returns from inside a conditional is made in one source and called in the next,
which ends in a `return` of its own. -/
theorem returned_values_stay_in_blocks_early :
    let sources :=
      [(Settings.unset, "let f = fn(x) \x7b if (x) \x7b return [x, fn() \x7b x \x7d]; \x7d 5 \x7d;"),
        (Settings.unset, "let pair = f(f(false)); if (pair[0]) \x7b return push(pair, len(pair)); \x7d")]
    (∀ run ∈ sources, disciplinedSource run.2 = true) ∧
      ∀ v, .ok v ∈ ((Session.new .default).runAll sources).1 → v.ReturnFree := by
  intro sources
  have hsources : ∀ run ∈ sources, disciplinedSource run.2 = true := by decide +kernel
  exact ⟨hsources, (returned_values_stay_in_blocks .default hsources).1⟩

end Runs

end Scriptlet
