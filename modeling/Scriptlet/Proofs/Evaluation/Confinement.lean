import Scriptlet.Proofs.Evaluation.Frame
import Scriptlet.Proofs.Evaluation.Preservation
import Scriptlet.Proofs.Program.Phrases

/-!
# Where evaluations stay

What an evaluation comes across is written in the programs that are run, and lies in the scopes that
they have made.

**The invariant.**  Let a property of phrases and a root scope be given.  A function is *confined* if it
was made in the root or a newer scope, and all that it consists of has the property.  A heap is confined
if from the root on scopes are inside such scopes and bind confined values (`Heap.Confined`); what older
scopes hold does not matter.  `Confines P root x Q`: from a confined heap, every event of `x` is in a
scope from the root on, evaluates a phrase with the property and is about confined values, and what `x`
yields satisfies `Q`.

**Results.**
* `recordEvaluate_confined`: evaluating a phrase that has the property throughout is confined.
* `Heap.confined_addRoot`: a new scope that nothing encloses is the root of a confined heap.
-/

namespace Scriptlet

section Invariant

variable (P : Node → Prop) (root : ScopeId)

/-- The function was made in a scope from the root on, and all that it consists of has the property. -/
def Closure.Confined (f : Closure) : Prop :=
  root ≤ f.scope ∧ ∀ n ∈ (Expr.function f.parameters f.body).phrases, P n

/-- Every function in the value is confined. -/
def Value.Confined (v : Value) : Prop :=
  v.Functions (Closure.Confined P root)

/-- The event is in a scope from the root on, evaluates a phrase with the property and is about confined
values. -/
def Event.Confined : Event → Prop
  | numbered => True
  | bound scope name v =>
      root ≤ scope ∧ (∃ e, P (.statement (.bind name e))) ∧ v.Confined P root
  | calling f arguments => f.Confined P root ∧ ∀ v ∈ arguments, v.Confined P root
  | entered scope f arguments =>
      root ≤ scope ∧ (Value.function f).Confined P root ∧ ∀ v ∈ arguments, v.Confined P root
  | closed scope _ v => root ≤ scope ∧ v.Confined P root
  | left scope => root ≤ scope
  | called _ v => v.Confined P root
  | yielded scope e v => root ≤ scope ∧ P (.expression e) ∧ v.Confined P root

/-- From the root on, scopes are inside no older scope than the root and bind confined values. -/
structure Heap.Confined (h : Heap) : Prop where
  root_lt : root < h.next
  inside : ∀ (j : ScopeId) (s : Scope), root ≤ j → h.scopes[j]? = some s →
    ∀ outer, s.outer = some outer → root ≤ outer
  binds : ∀ (j : ScopeId) (s : Scope), root ≤ j → h.scopes[j]? = some s →
    ∀ name v, (name, v) ∈ s.bindings → v.Confined P root

end Invariant

variable {P : Node → Prop} {root : ScopeId}

namespace Heap

variable {h : Heap}

theorem Confined.bind (hh : h.Confined P root) {v : Value} (hv : v.Confined P root) (scope : ScopeId)
    (name : String) : (h.bind scope name v).Confined P root where
  root_lt := by
    rw [next_bind]
    exact hh.root_lt
  inside j s hj hs := by
    obtain ⟨t, ht, houter, -, -⟩ := scopes_of_bind hs
    rw [houter]
    exact hh.inside j t hj ht
  binds j s hj hs key w hw := by
    obtain ⟨t, ht, -, -, hbindings⟩ := scopes_of_bind hs
    rcases hbindings key w hw with rfl | hw
    · exact hv
    · exact hh.binds j t hj ht key w hw

theorem Confined.addInside (hh : h.Confined P root) {outer : ScopeId} (houter : root ≤ outer)
    {arguments : List Value} (harguments : ∀ v ∈ arguments, v.Confined P root)
    (parameters : List String) :
    (h.addInside outer (bindParameters [] parameters arguments)).Confined P root where
  root_lt := by
    rw [Heap.addInside, next_add]
    exact Nat.lt_succ_of_lt hh.root_lt
  inside j s hj hs k hk := by
    rcases scopes_of_add hs with ⟨-, rfl⟩ | hs
    · cases hk
      exact houter
    · exact hh.inside j s hj hs k hk
  binds j s hj hs key w hw := by
    rcases scopes_of_add hs with ⟨-, rfl⟩ | hs
    · rcases mem_bindParameters hw with hw | hw | rfl
      · cases hw
      · exact harguments w hw
      · exact Value.functions_plain rfl rfl
    · exact hh.binds j s hj hs key w hw

/-- A new scope that nothing encloses is the root of a confined heap. -/
theorem confined_addRoot (h : Heap) (builtins : Registry) :
    (h.addRoot builtins).Confined P h.next where
  root_lt := by
    rw [addRoot, next_add]
    exact Nat.lt_succ_self _
  inside j s hj hs outer houter := by
    rcases scopes_of_add hs with ⟨-, rfl⟩ | hs
    · cases houter
    · exact absurd (Array.getElem?_eq_some_iff.mp hs).choose (Nat.not_lt.mpr hj)
  binds j s hj hs name v hv := by
    rcases scopes_of_add hs with ⟨-, rfl⟩ | hs
    · cases hv
    · exact absurd (Array.getElem?_eq_some_iff.mp hs).choose (Nat.not_lt.mpr hj)

/-- The scopes around one from the root on are from the root on as well. -/
theorem Confined.mem_chain (hh : h.Confined P root) {scope : ScopeId} (hscope : root ≤ scope) {s : Scope}
    (hs : s ∈ h.chain scope) : ∃ j : ScopeId, root ≤ j ∧ h.scopes[j]? = some s := by
  fun_induction chain h scope with
  | case1 => cases hs
  | case2 scope t ht hroot =>
      rw [List.mem_singleton] at hs
      exact ⟨scope, hscope, hs ▸ ht⟩
  | case3 scope t ht outer houter hlt ih =>
      rcases List.mem_cons.mp hs with hs | hs
      · exact ⟨scope, hscope, hs ▸ ht⟩
      · exact ih (hh.inside scope t hscope ht outer houter) hs
  | case4 scope t ht outer houter hle =>
      rw [List.mem_singleton] at hs
      exact ⟨scope, hscope, hs ▸ ht⟩

theorem Confined.resolve (hh : h.Confined P root) {scope : ScopeId} (hscope : root ≤ scope)
    {name : String} {v : Value} (hv : h.resolve scope name = some v) : v.Confined P root := by
  rw [Heap.resolve, Option.or_eq_some_iff] at hv
  rcases hv with hv | ⟨-, hv⟩
  · rw [lookup, List.findSome?_eq_some_iff] at hv
    obtain ⟨_, s, _, hchain, hget, -⟩ := hv
    obtain ⟨j, hj, hs⟩ :=
      hh.mem_chain hscope (hchain ▸ List.mem_append_right _ List.mem_cons_self)
    exact hh.binds j s hj hs name v (Table.mem_of_get? hget)
  · obtain ⟨b, -, rfl⟩ := Option.map_eq_some_iff.mp hv
    exact Value.functions_builtin b

end Heap

theorem Event.confined_apply {event : Event} {h : Heap} (hevent : event.Confined P root)
    (hh : h.Confined P root) : (event.apply h).Confined P root := by
  cases event with
  | numbered => exact ⟨hh.root_lt, hh.inside, hh.binds⟩
  | bound scope name v => exact hh.bind hevent.2.2 scope name
  | entered scope f arguments =>
      exact hh.addInside (Value.Functions.closure hevent.2.1).1 hevent.2.2 f.parameters
  | _ => exact hh

theorem confined_replay {events : List Event} {h : Heap}
    (hevents : ∀ event ∈ events, event.Confined P root) (hh : h.Confined P root) :
    (replay events h).Confined P root :=
  replay_preserves (fun _ _ => Event.confined_apply) hevents hh

section Evaluations

variable {α β : Type}

/-- From a confined heap, every event is confined and what is yielded has the property. -/
def Confines (P : Node → Prop) (root : ScopeId) (x : Recorded α) (Q : α → Prop) : Prop :=
  Preserves (Heap.Confined P root) (Event.Confined P root) x Q

variable {Q : α → Prop} {R : β → Prop}

theorem confines_pure {a : α} (ha : Q a) : Confines P root (pure a) Q :=
  preserves_pure ha

theorem Confines.bind {x : Recorded α} {f : α → Recorded β} (hx : Confines P root x Q)
    (hf : ∀ a, Q a → Confines P root (f a) R) : Confines P root (x >>= f) R :=
  Preserves.bind (fun _ _ => Event.confined_apply) hx hf

theorem confines_happen (event : Event) (hevent : event.Confined P root) :
    Confines P root (Recorded.happen event) fun _ => True :=
  preserves_happen hevent

theorem Confines.noting {x : Recorded Value} {event : Value → Event}
    (hx : Confines P root x (Value.Confined P root))
    (hevent : ∀ v, v.Confined P root → (event v).Confined P root) :
    Confines P root (Recorded.noting event x) (Value.Confined P root) :=
  Preserves.noting (fun _ _ => Event.confined_apply) hx hevent

theorem Confines.yielding {x : Recorded Value} {scope : ScopeId} {e : Expr}
    (hx : Confines P root x (Value.Confined P root)) (hscope : root ≤ scope)
    (he : ∀ n ∈ e.phrases, P n) :
    Confines P root (Recorded.noting (.yielded scope e) x) (Value.Confined P root) :=
  hx.noting fun _ hv => ⟨hscope, he _ e.self_mem_phrases, hv⟩

theorem Confines.closing {x : Recorded Value} {scope : ScopeId} {body : Block}
    (hx : Confines P root x (Value.Confined P root)) (hscope : root ≤ scope) :
    Confines P root (Recorded.noting (.closed scope body) x) (Value.Confined P root) :=
  hx.noting fun _ hv => ⟨hscope, hv⟩

theorem Confines.unlessError {x : Recorded Value} {f : Value → Recorded Value}
    (hx : Confines P root x (Value.Confined P root))
    (hf : ∀ v, v.Confined P root → Confines P root (f v) (Value.Confined P root)) :
    Confines P root (Recorded.unlessError x f) (Value.Confined P root) :=
  Preserves.unlessError (fun _ _ => Event.confined_apply) hx (fun _ hv => hv) hf

theorem confines_plain {v : Value} (hparts : v.parts = [v]) (hdata : v.isData = true) :
    Confines P root (pure v) (Value.Confined P root) :=
  confines_pure (Value.functions_plain hparts hdata)

theorem confines_newSerial : Confines P root Recorded.newSerial fun _ => True :=
  preserves_newSerial trivial

theorem confines_name {scope : ScopeId} (hscope : root ≤ scope) (text : String) :
    Confines P root (Recorded.name scope text) (Value.Confined P root) := by
  intro h hh
  refine ⟨by simp [Recorded.name], ?_⟩
  intro v hv
  cases hv
  cases hresolve : h.resolve scope text with
  | none => exact Value.functions_plain rfl rfl
  | some v => exact hh.resolve hscope hresolve

/-- A call makes a scope that is newer than the root. -/
theorem confines_enter {f : Closure} {arguments : List Value}
    (hf : (Value.function f).Confined P root) (harguments : ∀ v ∈ arguments, v.Confined P root) :
    Confines P root (Recorded.enter f arguments) fun scope => root ≤ scope := by
  intro h hh
  have hnext : root ≤ h.next := Nat.le_of_lt hh.root_lt
  refine ⟨List.forall_mem_singleton.mpr ⟨hnext, hf, harguments⟩, ?_⟩
  intro scope hscope
  cases hscope
  exact hnext

/-- The values of expressions, or the first error among them. -/
def ConfinedAll (P : Node → Prop) (root : ScopeId) : Except Value (List Value) → Prop
  | .error v => v.Confined P root
  | .ok vs => ∀ v ∈ vs, v.Confined P root

/-- Calls with confined values are confined. -/
def CallsConfined (P : Node → Prop) (root : ScopeId) (call : RecordedCaller) : Prop :=
  ∀ f arguments, f.Confined P root → (∀ v ∈ arguments, v.Confined P root) →
    Confines P root (call f arguments) (Value.Confined P root)

variable {call : RecordedCaller}

mutual

theorem Expr.confines (hcall : CallsConfined P root call) {scope : ScopeId} (hscope : root ≤ scope) :
    (e : Expr) → (∀ n ∈ e.phrases, P n) →
      Confines P root (e.record call scope) (Value.Confined P root)
  | .ident text, he => (confines_name hscope text).yielding hscope he
  | .integer _, he => (confines_plain rfl rfl).yielding hscope he
  | .boolean _, he => (confines_plain rfl rfl).yielding hscope he
  | .string _, he => (confines_plain rfl rfl).yielding hscope he
  | .unary op right, he => by
      refine Confines.yielding ?_ hscope he
      obtain ⟨-, hright⟩ := List.forall_mem_cons.mp he
      refine (right.confines hcall hscope hright).unlessError fun v _ => ?_
      have hmade : Value.MadeOf [] (applyUnary op v) := Value.madeOf_applyUnary op v
      exact confines_pure (hmade.functions (by simp))
  | .binary left op right, he => by
      refine Confines.yielding ?_ hscope he
      obtain ⟨-, hparts⟩ := List.forall_mem_cons.mp he
      obtain ⟨hleft, hright⟩ := List.forall_mem_append.mp hparts
      refine (left.confines hcall hscope hleft).unlessError fun a _ => ?_
      refine (right.confines hcall hscope hright).unlessError fun b _ => ?_
      have hmade : Value.MadeOf [] (applyBinary op a b) := Value.madeOf_applyBinary op a b
      exact confines_pure (hmade.functions (by simp))
  | .conditional condition consequence none, he => by
      refine Confines.yielding ?_ hscope he
      simp only [Expr.phrases, List.forall_mem_cons, List.forall_mem_append] at he
      obtain ⟨-, ⟨hcondition, hthen⟩, -⟩ := he
      refine (condition.confines hcall hscope hcondition).unlessError fun v _ => ?_
      by_cases hv : v.truthy = true
      · rw [if_pos hv]
        exact (Stmt.confinesAll hcall hscope consequence hthen
          (Value.functions_plain rfl rfl)).closing hscope
      · rw [if_neg hv]
        exact confines_plain rfl rfl
  | .conditional condition consequence (some block), he => by
      refine Confines.yielding ?_ hscope he
      simp only [Expr.phrases, List.forall_mem_cons, List.forall_mem_append] at he
      obtain ⟨-, ⟨hcondition, hthen⟩, helse⟩ := he
      refine (condition.confines hcall hscope hcondition).unlessError fun v _ => ?_
      by_cases hv : v.truthy = true
      · rw [if_pos hv]
        exact (Stmt.confinesAll hcall hscope consequence hthen
          (Value.functions_plain rfl rfl)).closing hscope
      · rw [if_neg hv]
        exact (Stmt.confinesAll hcall hscope block helse
          (Value.functions_plain rfl rfl)).closing hscope
  | .function parameters body, he => by
      refine Confines.yielding ?_ hscope he
      exact confines_newSerial.bind fun serial _ =>
        confines_pure (Value.functions_function ⟨hscope, he⟩)
  | .call callee arguments, he => by
      refine Confines.yielding ?_ hscope he
      obtain ⟨-, hparts⟩ := List.forall_mem_cons.mp he
      obtain ⟨hcallee, harguments⟩ := List.forall_mem_append.mp hparts
      refine (callee.confines hcall hscope hcallee).unlessError fun f hf => ?_
      refine (Expr.confinesAll hcall hscope arguments harguments).bind fun result hresult => ?_
      cases result with
      | error e => exact confines_pure hresult
      | ok vs =>
          refine (confines_happen (.calling f vs) ⟨hf, hresult⟩).bind fun _ _ => ?_
          exact (hcall f vs hf hresult).noting fun _ hv => hv
  | .array elements, he => by
      refine Confines.yielding ?_ hscope he
      obtain ⟨-, helements⟩ := List.forall_mem_cons.mp he
      refine (Expr.confinesAll hcall hscope elements helements).bind fun result hresult => ?_
      cases result with
      | error e => exact confines_pure hresult
      | ok vs => exact confines_pure (Value.functions_array hresult)
  | .index left subscript, he => by
      refine Confines.yielding ?_ hscope he
      obtain ⟨-, hparts⟩ := List.forall_mem_cons.mp he
      obtain ⟨hleft, hsubscript⟩ := List.forall_mem_append.mp hparts
      refine (left.confines hcall hscope hleft).unlessError fun a ha => ?_
      refine (subscript.confines hcall hscope hsubscript).unlessError fun b _ => ?_
      exact confines_pure ((Value.madeOf_applyIndex a b).functions (List.forall_mem_singleton.mpr ha))
  | .hash _, he => (confines_plain rfl rfl).yielding hscope he
  | .foreign _, he => (confines_plain rfl rfl).yielding hscope he

theorem Expr.confinesAll (hcall : CallsConfined P root call) {scope : ScopeId} (hscope : root ≤ scope) :
    (es : List Expr) → (∀ n ∈ Expr.phrasesAmong es, P n) →
      Confines P root (Expr.recordAll call scope es) (ConfinedAll P root)
  | [], _ => confines_pure (by simp [ConfinedAll])
  | e :: rest, he => by
      obtain ⟨hfirst, hrest⟩ := List.forall_mem_append.mp he
      refine (e.confines hcall hscope hfirst).bind fun v hv => ?_
      by_cases herror : v.isError = true
      · rw [if_pos herror]
        exact confines_pure hv
      · rw [if_neg herror]
        refine (Expr.confinesAll hcall hscope rest hrest).bind fun result hresult => ?_
        cases result with
        | error e => exact confines_pure hresult
        | ok vs => exact confines_pure (List.forall_mem_cons.mpr ⟨hv, hresult⟩)

theorem Stmt.confines (hcall : CallsConfined P root call) {scope : ScopeId} (hscope : root ≤ scope) :
    (s : Stmt) → (∀ n ∈ s.phrases, P n) →
      Confines P root (s.record call scope) (Value.Confined P root)
  | .bind text value, hs => by
      obtain ⟨hbind, hvalue⟩ := List.forall_mem_cons.mp hs
      refine (value.confines hcall hscope hvalue).unlessError fun v hv => ?_
      refine (confines_happen (.bound scope text v) ⟨hscope, ⟨value, hbind⟩, hv⟩).bind
        fun _ _ => ?_
      exact confines_pure hv
  | .ret value, hs => by
      obtain ⟨-, hvalue⟩ := List.forall_mem_cons.mp hs
      refine (value.confines hcall hscope hvalue).unlessError fun v hv => ?_
      exact confines_newSerial.bind fun serial _ =>
        confines_pure (Value.functions_returned hv serial)
  | .expr expression, hs => expression.confines hcall hscope (List.forall_mem_cons.mp hs).2
  | .block body, hs =>
      (Stmt.confinesAll hcall hscope body (List.forall_mem_cons.mp hs).2
        (Value.functions_plain rfl rfl)).closing hscope

theorem Stmt.confinesAll (hcall : CallsConfined P root call) {scope : ScopeId} (hscope : root ≤ scope) :
    (body : List Stmt) → (∀ n ∈ Stmt.phrasesAmong body, P n) → {last : Value} →
      last.Confined P root →
      Confines P root (Stmt.recordAll call scope last body) (Value.Confined P root)
  | [], _, _, hlast => confines_pure hlast
  | s :: rest, hs, _, _ => by
      obtain ⟨hfirst, hrest⟩ := List.forall_mem_append.mp hs
      refine (s.confines hcall hscope hfirst).bind fun v hv => ?_
      by_cases hstops : v.stops = true
      · rw [if_pos hstops]
        exact confines_pure hv
      · rw [if_neg hstops]
        exact Stmt.confinesAll hcall hscope rest hrest hv

end

theorem Node.confines (hcall : CallsConfined P root call) {scope : ScopeId} (hscope : root ≤ scope)
    (n : Node) (hn : ∀ inner ∈ n.phrases, P inner) :
    Confines P root (n.record call scope) (Value.Confined P root) := by
  cases n with
  | program p =>
      exact (Stmt.confinesAll hcall hscope p.statements hn (Value.functions_plain rfl rfl)).bind
        fun v hv => confines_pure (Value.Functions.unwrapped hv)
  | statement s => exact s.confines hcall hscope hn
  | expression e => exact e.confines hcall hscope hn

/-- Calls that nest so deep, by induction on the depth. -/
theorem recordWithin_confined (depth : Nat) : CallsConfined P root (recordWithin depth) := by
  induction depth with
  | zero =>
      intro f arguments hf harguments
      cases f with
      | function f =>
          intro h _
          refine ⟨by simp [recordWithin, Recorded.halt], ?_⟩
          intro v hv
          cases hv
      | builtin b => exact confines_pure ((Value.madeOf_call b arguments).functions harguments)
      | _ => exact confines_plain rfl rfl
  | succ depth ih =>
      intro f arguments hf harguments
      cases f with
      | function f =>
          obtain ⟨-, hphrases⟩ := Value.Functions.closure hf
          have hbody : ∀ n ∈ Stmt.phrasesAmong f.body, P n := (List.forall_mem_cons.mp hphrases).2
          refine (confines_enter hf harguments).bind fun scope hscope => ?_
          have hblock : Confines P root (Stmt.recordBlock (recordWithin depth) scope f.body)
              (Value.Confined P root) :=
            (Stmt.confinesAll ih hscope f.body hbody (Value.functions_plain rfl rfl)).closing hscope
          refine hblock.bind fun v hv => ?_
          refine (confines_happen (.left scope) hscope).bind fun _ _ => ?_
          exact confines_pure (Value.Functions.unwrapped hv)
      | builtin b => exact confines_pure ((Value.madeOf_call b arguments).functions harguments)
      | _ => exact confines_plain rfl rfl

end Evaluations

/-- Evaluating a phrase that has a property throughout comes across nothing but phrases with the property
and values that are confined. -/
theorem recordEvaluate_confined (settings : Settings) {scope : ScopeId} (hscope : root ≤ scope)
    {n : Node} (hn : ∀ inner ∈ n.phrases, P inner) {h : Heap} (hh : h.Confined P root) :
    (∀ event ∈ (recordEvaluate settings scope n h).1, event.Confined P root) ∧
      ∀ v, (recordEvaluate settings scope n h).2 = .ok v → v.Confined P root := by
  obtain ⟨failure, hfails⟩ | ⟨depth, hrecord⟩ := recordEvaluate_cases settings scope n h
  · rw [hfails]
    exact ⟨by simp, fun v hv => by cases hv⟩
  · obtain ⟨hevents, hvalue⟩ := n.confines (recordWithin_confined depth) hscope hn h hh
    rw [hrecord]
    exact ⟨hevents, fun v hv => hvalue v (eq_ok_of_mapError hv)⟩

theorem recordRun_confined (settings : Settings) {scope : ScopeId} (hscope : root ≤ scope)
    {source : String} (hsource : ∀ p, parse source = .ok ⟨p, []⟩ → ∀ n ∈ p.phrases, P n) {h : Heap}
    (hh : h.Confined P root) :
    (∀ event ∈ (recordRun settings scope source h).1, event.Confined P root) ∧
      ∀ v, (recordRun settings scope source h).2 = .ok v → v.Confined P root := by
  obtain ⟨failure, hfails⟩ | ⟨p, hparse, hrun⟩ := recordRun_cases settings scope source h
  · rw [hfails]
    exact ⟨by simp, fun v hv => by cases hv⟩
  · rw [hrun]
    exact recordEvaluate_confined settings hscope (n := .program p) (hsource p hparse) hh

end Scriptlet
