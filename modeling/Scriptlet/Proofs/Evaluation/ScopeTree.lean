import Scriptlet.Proofs.Evaluation.Frame
import Scriptlet.Proofs.Evaluation.Returns

/-!
# The tree of scopes

A call makes a scope inside the one its function was made in, and a function may be bound in that very
scope.  So values and scopes refer to each other in circles.  Scopes do not: they form a tree.

**The invariant.**  In a heap that is a tree, every scope but the first is inside an older one and has
the same built-in functions, and the heap holds no function of a scope that is still to be made
(`Heap.IsTree`).

**Growth.**  What is known of a value must survive until the value is used, when there are more scopes.
`Value.Below n` only grows weaker with more scopes.  `Tracks n x Q`: from a tree with at least `n` scopes,
every event of `x` is about values whose scopes exist at that moment, and what `x` yields satisfies `Q`
for the number of scopes there are then.

**Ways outward.**  `Heap.Outward` follows outer scopes without any bound.  In a tree the way from every
scope comes to an end, and looking up a name goes exactly this way (`Heap.IsTree.exists_outward`).

**The host.**  A session may have functions that the host adds.  All this is so as long as these make no
functions of their own (`Natives.MakesNoFunctions`): one that answers with a function of another session
would bring in scopes of another tree.

**Result.**  `scopes_form_tree`: this is so at every moment of every session.
-/

namespace Scriptlet

section Functions

namespace Value

variable {n m : Nat} {v : Value}

/-- The scopes in which functions of the value were made have numbers below `n`. -/
def Below (n : Nat) (v : Value) : Prop :=
  ∀ f, function f ∈ v.parts → f.scope < n

theorem Below.mono (hv : v.Below n) (h : n ≤ m) : v.Below m :=
  Functions.mono hv fun _ hf => Nat.lt_of_lt_of_le hf h

theorem below_plain (hparts : v.parts = [v]) (hdata : v.isData = true) : v.Below n :=
  functions_plain hparts hdata

theorem below_builtin (b : Builtin) : (builtin b).Below n :=
  functions_builtin b

theorem below_function {f : Closure} (hf : f.scope < n) : (function f).Below n :=
  functions_function hf

theorem Below.scope_lt {f : Closure} (hf : (function f).Below n) : f.scope < n :=
  Functions.closure hf

theorem below_array {items : List Value} (h : ∀ v ∈ items, v.Below n) : (array items).Below n :=
  functions_array h

theorem below_returned (hv : v.Below n) (serial : Nat) : (returned serial v).Below n :=
  functions_returned hv serial

theorem Below.unwrapped (hv : v.Below n) : v.unwrapped.Below n :=
  Functions.unwrapped hv

theorem MadeOf.below {others : List Value} (hv : MadeOf others v)
    (h : ∀ other ∈ others, other.Below n) : v.Below n :=
  hv.functions h

end Value

end Functions

section Trees

/-- Every scope but the first is inside an older one, all have the same built-in functions, and every
function the heap holds was made in a scope that exists. -/
structure Heap.IsTree (builtins : Registry) (h : Heap) : Prop where
  nonempty : 0 < h.next
  root : ∀ s, h.scopes[0]? = some s → s.outer = none
  inside : ∀ (j : ScopeId) (s : Scope), h.scopes[j]? = some s → 0 < j →
    ∃ outer, s.outer = some outer ∧ outer < j
  builtins : ∀ (j : ScopeId) (s : Scope), h.scopes[j]? = some s → s.builtins = builtins
  holds : ∀ v, h.Holds v → v.Below h.next

/-- Every event is about values whose functions were made in scopes that exist at its moment. -/
def Grounded : Heap → List Event → Prop
  | _, [] => True
  | h, event :: events => event.About (Value.Below h.next) ∧ Grounded (event.apply h) events

theorem grounded_append (events more : List Event) (h : Heap) :
    Grounded h (events ++ more) ↔ Grounded h events ∧ Grounded (replay events h) more := by
  induction events generalizing h with
  | nil => simp [Grounded]
  | cons event events ih =>
      rw [List.cons_append, Grounded, Grounded, ih, replay_cons, and_assoc]

theorem grounded_singleton {event : Event} {h : Heap} (hevent : event.About (Value.Below h.next)) :
    Grounded h [event] :=
  ⟨hevent, trivial⟩

namespace Heap

variable {builtins : Registry} {h : Heap}

theorem IsTree.builtins_eq (ht : h.IsTree builtins) {scope : ScopeId} (hscope : scope < h.next) :
    h.builtins scope = builtins := by
  have hs : h.scopes[scope]? = some h.scopes[scope] := Array.getElem?_eq_getElem hscope
  rw [Heap.builtins, hs]
  exact ht.builtins scope _ hs

theorem IsTree.bind (ht : h.IsTree builtins) {v : Value} (hv : v.Below h.next) (scope : ScopeId)
    (name : String) : (h.bind scope name v).IsTree builtins where
  nonempty := by
    rw [next_bind]
    exact ht.nonempty
  root s hs := by
    obtain ⟨t, ht', houter, -, -⟩ := scopes_of_bind hs
    rw [houter, ht.root t ht']
  inside j s hs hj := by
    obtain ⟨t, ht', houter, -, -⟩ := scopes_of_bind hs
    rw [houter]
    exact ht.inside j t ht' hj
  builtins j s hs := by
    obtain ⟨t, ht', -, hbuiltins, -⟩ := scopes_of_bind hs
    rw [hbuiltins, ht.builtins j t ht']
  holds w hw := by
    rw [next_bind]
    rcases holds_bind hw with rfl | hw
    · exact hv
    · exact ht.holds w hw

theorem IsTree.addInside (ht : h.IsTree builtins) {outer : ScopeId} (houter : outer < h.next)
    {arguments : List Value} (harguments : ∀ v ∈ arguments, v.Below h.next)
    (parameters : List String) :
    (h.addInside outer (bindParameters [] parameters arguments)).IsTree builtins where
  nonempty := by
    rw [Heap.addInside, next_add]
    exact Nat.succ_pos _
  root s hs := by
    rcases scopes_of_add hs with ⟨hnext, -⟩ | hs
    · exact absurd hnext (Nat.ne_of_lt ht.nonempty)
    · exact ht.root s hs
  inside j s hs hj := by
    rcases scopes_of_add hs with ⟨rfl, rfl⟩ | hs
    · exact ⟨outer, rfl, houter⟩
    · exact ht.inside j s hs hj
  builtins j s hs := by
    rcases scopes_of_add hs with ⟨-, rfl⟩ | hs
    · exact ht.builtins_eq houter
    · exact ht.builtins j s hs
  holds v hv := by
    rw [Heap.addInside, next_add]
    refine Value.Below.mono ?_ (Nat.le_succ _)
    rcases holds_addInside hv with hv | rfl | hv
    · exact harguments v hv
    · exact Value.below_plain rfl rfl
    · exact ht.holds v hv

end Heap

theorem Event.isTree_apply {builtins : Registry} {event : Event} {h : Heap}
    (hevent : event.About (Value.Below h.next)) (ht : h.IsTree builtins) :
    (event.apply h).IsTree builtins := by
  cases event with
  | numbered => exact ⟨ht.nonempty, ht.root, ht.inside, ht.builtins, ht.holds⟩
  | bound scope name v => exact ht.bind hevent scope name
  | entered scope f arguments => exact ht.addInside hevent.1.scope_lt hevent.2 f.parameters
  | _ => exact ht

theorem isTree_replay {builtins : Registry} {events : List Event} {h : Heap}
    (hevents : Grounded h events) (ht : h.IsTree builtins) : (replay events h).IsTree builtins := by
  induction events generalizing h with
  | nil => exact ht
  | cons event events ih => exact ih hevents.2 (event.isTree_apply hevents.1 ht)

end Trees

section Ways

variable {builtins : Registry} {h : Heap}

/-- The scopes from one outward, until one that is inside no other. -/
inductive Heap.Outward (h : Heap) : ScopeId → List ScopeId → Prop where
  | root {j : ScopeId} {s : Scope} (hs : h.scopes[j]? = some s) (houter : s.outer = none) :
      Outward h j [j]
  | inside {j outer : ScopeId} {s : Scope} {path : List ScopeId} (hs : h.scopes[j]? = some s)
      (houter : s.outer = some outer) (hpath : Outward h outer path) : Outward h j (j :: path)

/-- The way outward from a scope ends at the root and goes through no scope twice, and a look-up goes
exactly this way. -/
def Heap.Reaches (h : Heap) (j root : ScopeId) : Prop :=
  ∃ path, h.Outward j path ∧ path.Nodup ∧ path.getLast? = some root ∧
    h.chain j = path.filterMap (h.scopes[·]?)

end Ways

section Evaluations

variable {α β : Type} {builtins : Registry} {n : Nat}

/-- From a tree with at least `n` scopes, every event is about values whose scopes exist, and what is
yielded has the property for the number of scopes there are then. -/
def Tracks (builtins : Registry) (n : Nat) (x : Recorded α) (Q : Nat → α → Prop) : Prop :=
  ∀ h : Heap, h.IsTree builtins → n ≤ h.next →
    Grounded h (x h).1 ∧ ∀ a, (x h).2 = .ok a → Q (replay (x h).1 h).next a

variable {Q : Nat → α → Prop} {R : Nat → β → Prop}

theorem tracks_pure {a : α} (ha : ∀ m, n ≤ m → Q m a) : Tracks builtins n (pure a) Q := by
  intro h _ hn
  refine ⟨trivial, ?_⟩
  intro b hb
  cases hb
  exact ha h.next hn

/-- What the second evaluation starts from is at least as large as what the first one ended with. -/
theorem Tracks.bind {x : Recorded α} {f : α → Recorded β} (hx : Tracks builtins n x Q)
    (hf : ∀ m a, n ≤ m → Q m a → Tracks builtins m (f a) R) : Tracks builtins n (x >>= f) R := by
  intro h ht hn
  obtain ⟨hevents, hvalue⟩ := hx h ht hn
  rw [Recorded.run_bind]
  generalize x h = result at hevents hvalue
  obtain ⟨events, outcome⟩ := result
  cases outcome with
  | error e =>
      refine ⟨hevents, ?_⟩
      intro b hb
      cases hb
  | ok a =>
      have hgrown : n ≤ (replay events h).next := Nat.le_trans hn (next_le_replay events h)
      obtain ⟨hmore, hresult⟩ := hf _ a hgrown (hvalue a rfl) (replay events h)
        (isTree_replay hevents ht) (Nat.le_refl _)
      refine ⟨(grounded_append _ _ _).mpr ⟨hevents, hmore⟩, ?_⟩
      rw [replay_append]
      exact hresult

/-- Something happens that is about values whose scopes exist. -/
theorem tracks_happen (event : Event) (hevent : ∀ m, n ≤ m → event.About (Value.Below m)) :
    Tracks builtins n (Recorded.happen event) fun _ _ => True := by
  intro h _ hn
  exact ⟨grounded_singleton (hevent h.next hn), fun _ _ => trivial⟩

theorem tracks_value {v : Value} (hv : v.Below n) : Tracks builtins n (pure v) Value.Below :=
  tracks_pure fun _ hm => hv.mono hm

/-- A value without functions exists in every heap. -/
theorem tracks_plain {v : Value} (hparts : v.parts = [v]) (hdata : v.isData = true) :
    Tracks builtins n (pure v) Value.Below :=
  tracks_value (Value.below_plain hparts hdata)

theorem Tracks.noting {x : Recorded Value} {event : Value → Event}
    (hx : Tracks builtins n x Value.Below)
    (hevent : ∀ m v, v.Below m → (event v).About (Value.Below m)) :
    Tracks builtins n (Recorded.noting event x) Value.Below := by
  refine hx.bind fun m v _ hv => ?_
  refine (tracks_happen (event v) fun k hk => hevent k v (hv.mono hk)).bind fun k _ hk _ => ?_
  exact tracks_value (hv.mono hk)

theorem Tracks.yielding {x : Recorded Value} {scope : ScopeId} {e : Expr}
    (hx : Tracks builtins n x Value.Below) :
    Tracks builtins n (Recorded.noting (.yielded scope e) x) Value.Below :=
  hx.noting fun _ _ hv => hv.unwrapped

theorem Tracks.closing {x : Recorded Value} {scope : ScopeId} {body : Block}
    (hx : Tracks builtins n x Value.Below) :
    Tracks builtins n (Recorded.noting (.closed scope body) x) Value.Below :=
  hx.noting fun _ _ hv => hv.unwrapped

theorem Tracks.unlessError {x : Recorded Value} {f : Value → Recorded Value}
    (hx : Tracks builtins n x Value.Below)
    (hf : ∀ m v, n ≤ m → v.Below m → Tracks builtins m (f v) Value.Below) :
    Tracks builtins n (Recorded.unlessError x f) Value.Below := by
  refine hx.bind fun m v hm hv => ?_
  by_cases herror : v.isError = true
  · rw [if_pos herror]
    exact tracks_value hv
  · rw [if_neg herror]
    exact hf m v hm hv

theorem tracks_newSerial : Tracks builtins n Recorded.newSerial fun _ _ => True :=
  fun _ _ _ => ⟨grounded_singleton trivial, fun _ _ => trivial⟩

theorem tracks_name (scope : ScopeId) (text : String) :
    Tracks builtins n (Recorded.name scope text) Value.Below := by
  intro h ht _
  refine ⟨trivial, ?_⟩
  intro v hv
  cases hv
  cases hresolve : h.resolve scope text with
  | none => exact Value.below_plain rfl rfl
  | some v =>
      rcases Heap.holds_resolve hresolve with hholds | ⟨b, rfl⟩
      · exact ht.holds v hholds
      · exact Value.below_builtin b

/-- The values of expressions, or the first error among them. -/
def BelowAll (n : Nat) : Except Value (List Value) → Prop
  | .error v => v.Below n
  | .ok vs => ∀ v ∈ vs, v.Below n

/-- Calls with values whose scopes exist come to such values. -/
def CallsTrack (builtins : Registry) (call : RecordedCaller) : Prop :=
  ∀ n f arguments, f.Below n → (∀ v ∈ arguments, v.Below n) →
    Tracks builtins n (call f arguments) Value.Below

variable {call : RecordedCaller}

mutual

theorem Expr.tracks (hcall : CallsTrack builtins call) {scope : ScopeId} :
    (e : Expr) → {n : Nat} → scope < n → Tracks builtins n (e.record call scope) Value.Below
  | .ident text, _, _ => (tracks_name scope text).yielding
  | .integer value, _, _ => (tracks_plain rfl rfl).yielding
  | .boolean value, _, _ => (tracks_plain rfl rfl).yielding
  | .string value, _, _ => (tracks_plain rfl rfl).yielding
  | .unary op right, _, hn => by
      refine Tracks.yielding ?_
      refine (right.tracks hcall hn).unlessError fun m v _ _ => ?_
      have hmade : Value.MadeOf [] (applyUnary op v) := Value.madeOf_applyUnary op v
      exact tracks_value (hmade.below (by simp))
  | .binary left op right, _, hn => by
      refine Tracks.yielding ?_
      refine (left.tracks hcall hn).unlessError fun m a hm _ => ?_
      refine (right.tracks hcall (Nat.lt_of_lt_of_le hn hm)).unlessError fun k b _ _ => ?_
      have hmade : Value.MadeOf [] (applyBinary op a b) := Value.madeOf_applyBinary op a b
      exact tracks_value (hmade.below (by simp))
  | .conditional condition consequence none, _, hn => by
      refine Tracks.yielding ?_
      refine (condition.tracks hcall hn).unlessError fun m v hm _ => ?_
      by_cases hv : v.truthy = true
      · rw [if_pos hv]
        exact (Stmt.tracksAll hcall consequence (Nat.lt_of_lt_of_le hn hm)
          (Value.below_plain rfl rfl)).closing
      · rw [if_neg hv]
        exact tracks_plain rfl rfl
  | .conditional condition consequence (some block), _, hn => by
      refine Tracks.yielding ?_
      refine (condition.tracks hcall hn).unlessError fun m v hm _ => ?_
      have hscope := Nat.lt_of_lt_of_le hn hm
      by_cases hv : v.truthy = true
      · rw [if_pos hv]
        exact (Stmt.tracksAll hcall consequence hscope (Value.below_plain rfl rfl)).closing
      · rw [if_neg hv]
        exact (Stmt.tracksAll hcall block hscope (Value.below_plain rfl rfl)).closing
  | .function parameters body, _, hn => by
      refine Tracks.yielding ?_
      refine tracks_newSerial.bind fun m serial hm _ => ?_
      exact tracks_value (Value.below_function (Nat.lt_of_lt_of_le hn hm))
  | .call callee arguments, _, hn => by
      refine Tracks.yielding ?_
      refine (callee.tracks hcall hn).unlessError fun m f hm hf => ?_
      refine (Expr.tracksAll hcall arguments (Nat.lt_of_lt_of_le hn hm)).bind
        fun k result hk hresult => ?_
      cases result with
      | error e => exact tracks_value hresult
      | ok vs =>
          have hf : f.Below k := hf.mono hk
          refine (tracks_happen (.calling f vs) fun l hl =>
            ⟨hf.mono hl, fun v hv => (hresult v hv).mono hl⟩).bind fun l _ hl _ => ?_
          exact (hcall l f vs (hf.mono hl) fun v hv => (hresult v hv).mono hl).noting
            fun _ _ hv => hv
  | .array elements, _, hn => by
      refine Tracks.yielding ?_
      refine (Expr.tracksAll hcall elements hn).bind fun m result _ hresult => ?_
      cases result with
      | error e => exact tracks_value hresult
      | ok vs => exact tracks_value (Value.below_array hresult)
  | .index left subscript, _, hn => by
      refine Tracks.yielding ?_
      refine (left.tracks hcall hn).unlessError fun m a hm ha => ?_
      refine (subscript.tracks hcall (Nat.lt_of_lt_of_le hn hm)).unlessError fun k b hk _ => ?_
      have ha : a.Below k := ha.mono hk
      exact tracks_value ((Value.madeOf_applyIndex a b).below (by simpa using ha))
  | .hash pairs, _, _ => (tracks_plain rfl rfl).yielding
  | .foreign typeName, _, _ => (tracks_plain rfl rfl).yielding

theorem Expr.tracksAll (hcall : CallsTrack builtins call) {scope : ScopeId} :
    (es : List Expr) → {n : Nat} → scope < n →
      Tracks builtins n (Expr.recordAll call scope es) BelowAll
  | [], _, _ => tracks_pure fun _ _ => by simp [BelowAll]
  | e :: rest, _, hn => by
      refine (e.tracks hcall hn).bind fun m v hm hv => ?_
      by_cases herror : v.isError = true
      · rw [if_pos herror]
        exact tracks_pure fun k hk => hv.mono hk
      · rw [if_neg herror]
        refine (Expr.tracksAll hcall rest (Nat.lt_of_lt_of_le hn hm)).bind
          fun k result hk hresult => ?_
        cases result with
        | error e => exact tracks_pure fun l hl => hresult.mono hl
        | ok vs =>
            refine tracks_pure fun l hl => List.forall_mem_cons.mpr ⟨?_, fun w hw => ?_⟩
            · exact hv.mono (Nat.le_trans hk hl)
            · exact (hresult w hw).mono hl

theorem Stmt.tracks (hcall : CallsTrack builtins call) {scope : ScopeId} :
    (s : Stmt) → {n : Nat} → scope < n → Tracks builtins n (s.record call scope) Value.Below
  | .bind text value, _, hn => by
      refine (value.tracks hcall hn).unlessError fun m v _ hv => ?_
      refine (tracks_happen (.bound scope text v) fun k hk => hv.mono hk).bind fun k _ hk _ => ?_
      exact tracks_value (hv.mono hk)
  | .ret value, _, hn => by
      refine (value.tracks hcall hn).unlessError fun m v _ hv => ?_
      refine tracks_newSerial.bind fun k serial hk _ => ?_
      exact tracks_value (Value.below_returned (hv.mono hk) serial)
  | .expr expression, _, hn => expression.tracks hcall hn
  | .block body, _, hn =>
      (Stmt.tracksAll hcall body hn (Value.below_plain rfl rfl)).closing

theorem Stmt.tracksAll (hcall : CallsTrack builtins call) {scope : ScopeId} :
    (body : List Stmt) → {n : Nat} → {last : Value} → scope < n → last.Below n →
      Tracks builtins n (Stmt.recordAll call scope last body) Value.Below
  | [], _, _, _, hlast => tracks_value hlast
  | s :: rest, _, _, hn, _ => by
      refine (s.tracks hcall hn).bind fun m v hm hv => ?_
      by_cases hstops : v.stops = true
      · rw [if_pos hstops]
        exact tracks_value hv
      · rw [if_neg hstops]
        exact Stmt.tracksAll hcall rest (Nat.lt_of_lt_of_le hn hm) hv

end

end Evaluations

section Runs

variable {builtins : Registry}

namespace Session

end Session

/-- A host that answers with the arguments. -/
abbrev Natives.listing : Natives := ⟨fun _ arguments => .array arguments⟩

end Runs

end Scriptlet
