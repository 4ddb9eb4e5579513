import Scriptlet.Proofs.Evaluation.Comparison
import Scriptlet.Proofs.Evaluation.Confinement

/-!
# Names that do not occur

A binding matters only to programs in which its name occurs.

**Two heaps.**  `h.given root name v` is the heap `h` in which the root also binds the name, before all
that it binds.  Looking up any other name finds the same in both, binding any other name changes both
alike, and so does making a scope.

**Comparison.**  `Mirrors root name v x y`: from the given heap `x` does what `y` does from the plain one,
if nothing that `y` does concerns the name (`Event.Avoids`).  The comparison is compositional; that
nothing concerns the name follows from where evaluations stay.

**Result.**  `run_with_unmentioned_binding`: sources in which a name does not occur run alike whether or
not it is bound, and leave the same behind but for the binding.
-/

namespace Scriptlet

namespace Heap

/-- The heap in which the root also binds the name, before all that it binds. -/
def given (h : Heap) (root : ScopeId) (name : String) (v : Value) : Heap :=
  { h with scopes := h.scopes.modify root fun s => { s with bindings := (name, v) :: s.bindings } }

variable {h : Heap} {root : ScopeId} {name : String} {v : Value}

@[simp] theorem next_given : (h.given root name v).next = h.next := by
  simp [next, given]

@[simp] theorem serial_given : (h.given root name v).serial = h.serial := rfl

theorem scopes_given (j : ScopeId) :
    (h.given root name v).scopes[j]? =
      if root = j then h.scopes[j]?.map fun s => { s with bindings := (name, v) :: s.bindings }
      else h.scopes[j]? := by
  simp [given, Array.getElem?_modify]

/-- The given scope is the plain one, but for the binding of the name. -/
theorem scopes_given_some {j : ScopeId} {s : Scope} (hs : h.scopes[j]? = some s) :
    ∃ t, (h.given root name v).scopes[j]? = some t ∧ t.outer = s.outer ∧ t.builtins = s.builtins ∧
      ∀ text, text ≠ name → Table.get? text t.bindings = Table.get? text s.bindings := by
  rw [scopes_given, hs]
  by_cases hj : root = j
  · rw [if_pos hj]
    refine ⟨_, rfl, rfl, rfl, ?_⟩
    intro text htext
    rw [Table.get?, if_neg htext.symm]
  · rw [if_neg hj]
    exact ⟨s, rfl, rfl, rfl, fun _ _ => rfl⟩

theorem scopes_given_none {j : ScopeId} (hs : h.scopes[j]? = none) :
    (h.given root name v).scopes[j]? = none := by
  rw [scopes_given, hs]
  simp

theorem lookup_given {text : String} (htext : text ≠ name) (scope : ScopeId) :
    (h.given root name v).lookup scope text = h.lookup scope text := by
  simp only [lookup]
  fun_induction chain h scope with
  | case1 scope hs =>
      rw [chain, scopes_given_none hs]
  | case2 scope s hs houter =>
      obtain ⟨t, ht, houter', -, hget⟩ := scopes_given_some hs
      rw [chain, ht]
      simp only [houter', houter, List.findSome?_cons, hget text htext]
  | case3 scope s hs outer houter hlt ih =>
      obtain ⟨t, ht, houter', -, hget⟩ := scopes_given_some hs
      rw [chain, ht]
      simp only [houter', houter, dif_pos hlt, List.findSome?_cons, hget text htext, ih]
  | case4 scope s hs outer houter hle =>
      obtain ⟨t, ht, houter', -, hget⟩ := scopes_given_some hs
      rw [chain, ht]
      simp only [houter', houter, dif_neg hle, List.findSome?_cons, hget text htext]

theorem builtins_given (scope : ScopeId) :
    (h.given root name v).builtins scope = h.builtins scope := by
  rw [builtins, builtins]
  cases hs : h.scopes[scope]? with
  | none => rw [scopes_given_none hs]
  | some s =>
      obtain ⟨t, ht, -, hbuiltins, -⟩ := scopes_given_some hs
      rw [ht]
      exact hbuiltins

theorem resolve_given {text : String} (htext : text ≠ name) (scope : ScopeId) :
    (h.given root name v).resolve scope text = h.resolve scope text := by
  rw [resolve, resolve, lookup_given htext, builtins_given]

theorem bind_given {text : String} (htext : text ≠ name) (scope : ScopeId) (w : Value) :
    (h.given root name v).bind scope text w = (h.bind scope text w).given root name v := by
  have hput : ∀ t : Table String Value,
      Table.put text w ((name, v) :: t) = (name, v) :: Table.put text w t := by
    intro t
    rw [Table.put, if_neg htext.symm]
  simp only [given, bind, mk.injEq, and_true]
  refine Array.ext_getElem? fun j => ?_
  simp only [Array.getElem?_modify]
  by_cases hscope : scope = j <;> by_cases hroot : root = j <;>
    cases h.scopes[j]? <;> simp [hscope, hroot, hput]

theorem add_given (hroot : root < h.next) (s : Scope) :
    (h.given root name v).add s = (h.add s).given root name v := by
  simp only [given, add, mk.injEq, and_true]
  refine Array.ext_getElem? fun j => ?_
  simp only [Array.getElem?_push, Array.getElem?_modify, Array.size_modify]
  by_cases hlast : j = h.scopes.size
  · have hne : root ≠ h.scopes.size := Nat.ne_of_lt hroot
    simp [hlast, hne]
  · simp [hlast]

end Heap

/-- The event neither binds the name nor looks it up. -/
def Event.Avoids (name : String) : Event → Prop
  | bound _ text _ => text ≠ name
  | yielded _ (.ident text) _ => text ≠ name
  | _ => True

section Replay

variable {root : ScopeId} {name : String} {v : Value} {h : Heap} {events : List Event}

theorem Event.apply_given {event : Event} (hevent : event.Avoids name) (hroot : root < h.next) :
    event.apply (h.given root name v) = (event.apply h).given root name v := by
  cases event with
  | numbered => rfl
  | bound scope text w => exact Heap.bind_given hevent scope w
  | entered scope f arguments =>
      simp only [Event.apply, Heap.addInside, Heap.builtins_given]
      exact Heap.add_given hroot _
  | _ => rfl

theorem replay_given (hevents : ∀ event ∈ events, event.Avoids name) (hroot : root < h.next) :
    replay events (h.given root name v) = (replay events h).given root name v := by
  induction events generalizing h with
  | nil => rfl
  | cons event events ih =>
      obtain ⟨hfirst, hrest⟩ := List.forall_mem_cons.mp hevents
      rw [replay_cons, replay_cons, event.apply_given hfirst hroot]
      exact ih hrest (Nat.lt_of_lt_of_le hroot (event.next_le_apply h))

/-- The root binds the name to nothing. -/
def Heap.Unbound (root : ScopeId) (name : String) (h : Heap) : Prop :=
  ∀ s, h.scopes[root]? = some s → name ∉ Table.keys s.bindings

theorem Event.unbound_apply {event : Event} (hevent : event.Avoids name) (hroot : root < h.next)
    (hh : h.Unbound root name) : (event.apply h).Unbound root name := by
  intro s hs
  cases event with
  | bound scope text w =>
      by_cases hscope : scope = root
      · subst hscope
        have hold : h.scopes[scope]? = some h.scopes[scope] := Array.getElem?_eq_getElem hroot
        rw [Event.apply, Heap.scopes_bind_self hold] at hs
        cases hs
        rw [Table.keys_put]
        split
        · exact hh _ hold
        · simp only [List.mem_append, List.mem_singleton, not_or]
          exact ⟨hh _ hold, Ne.symm hevent⟩
      · rw [Event.apply, Heap.scopes_bind_of_ne hscope] at hs
        exact hh s hs
  | entered scope f arguments =>
      rcases Heap.scopes_of_add hs with ⟨hnext, -⟩ | hs
      · exact absurd hnext (Nat.ne_of_lt hroot)
      · exact hh s hs
  | _ => exact hh s hs

theorem unbound_replay (hevents : ∀ event ∈ events, event.Avoids name) (hroot : root < h.next)
    (hh : h.Unbound root name) : (replay events h).Unbound root name := by
  have hkeep : Keep (Event.Avoids name) fun h => root < h.next ∧ h.Unbound root name := by
    intro event h hevent hh
    exact ⟨Nat.lt_of_lt_of_le hh.1 (event.next_le_apply h), event.unbound_apply hevent hh.1 hh.2⟩
  exact (replay_preserves hkeep hevents ⟨hroot, hh⟩).2

end Replay

section Comparison

variable {root : ScopeId} {name : String} {v : Value}

/-- From the heap with the binding the first evaluation does what the second one does from the plain heap,
if that does not concern the name. -/
def Mirrors (root : ScopeId) (name : String) (v : Value) {α : Type} (x y : Recorded α) : Prop :=
  ∀ h : Heap, root < h.next → (∀ event ∈ (y h).1, event.Avoids name) →
    x (h.given root name v) = y h

theorem Mirrors.bind {α β : Type} {x y : Recorded α} {f g : α → Recorded β}
    (hxy : Mirrors root name v x y) (hfg : ∀ a, Mirrors root name v (f a) (g a)) :
    Mirrors root name v (x >>= f) (y >>= g) := by
  intro h hroot havoids
  rw [Recorded.run_bind] at havoids
  rw [Recorded.run_bind, Recorded.run_bind]
  have hfirst := hxy h hroot
  generalize y h = result at havoids hfirst
  obtain ⟨events, outcome⟩ := result
  cases outcome with
  | error e => rw [hfirst havoids]
  | ok a =>
      obtain ⟨hevents, hmore⟩ := List.forall_mem_append.mp havoids
      have hgrown := Nat.lt_of_lt_of_le hroot (next_le_replay events h)
      rw [hfirst hevents]
      simp only [replay_given hevents hroot, hfg a (replay events h) hgrown hmore]

theorem mirrors_compositional : Compositional (@Mirrors root name v) where
  pure _ := fun _ _ _ => rfl
  bind := .bind
  happen _ := fun _ _ _ => rfl
  newSerial := fun _ _ _ => rfl
  enter f arguments := by
    intro h _ _
    simp only [Recorded.enter, Heap.next_given]
  ident scope text := by
    intro h _ havoids
    have htext : text ≠ name := havoids _ (List.mem_singleton_self _)
    have hname : Recorded.name scope text (h.given root name v) = Recorded.name scope text h := by
      simp only [Recorded.name, Heap.resolve_given htext]
    rw [Recorded.noting, Recorded.run_bind, Recorded.run_bind, hname]
    rfl

theorem recordWithin_mirrors (depth : Nat) (f : Value) (arguments : List Value) :
    Mirrors root name v (recordWithin depth f arguments) (recordWithin depth f arguments) := by
  induction depth generalizing f arguments with
  | zero => cases f <;> exact fun _ _ _ => rfl
  | succ depth ih =>
      cases f with
      | function f => exact mirrors_compositional.function ih f arguments
      | _ => exact fun _ _ _ => rfl

theorem recordEvaluate_given (settings : Settings) (scope : ScopeId) (n : Node) {h : Heap}
    (hroot : root < h.next)
    (havoids : ∀ event ∈ (recordEvaluate settings scope n h).1, event.Avoids name) :
    recordEvaluate settings scope n (h.given root name v) = recordEvaluate settings scope n h := by
  unfold recordEvaluate at havoids ⊢
  cases hlimit : settings.limitInForce with
  | error fault => rfl
  | ok limit =>
      have hmirrors : Mirrors root name v (n.record (recordWithin (callDepth limit)) scope)
          (n.record (recordWithin (callDepth limit)) scope) :=
        n.related mirrors_compositional (recordWithin_mirrors (callDepth limit)) scope
      simp only [hlimit] at havoids ⊢
      rw [hmirrors h hroot]
      generalize n.record (recordWithin (callDepth limit)) scope h = result at havoids
      obtain ⟨events, outcome⟩ := result
      cases outcome with
      | error cause =>
          cases cause
          exact havoids
      | ok w => exact havoids

theorem recordRun_given (settings : Settings) (scope : ScopeId) (source : String) {h : Heap}
    (hroot : root < h.next)
    (havoids : ∀ event ∈ (recordRun settings scope source h).1, event.Avoids name) :
    recordRun settings scope source (h.given root name v) = recordRun settings scope source h := by
  unfold recordRun at havoids ⊢
  cases hparse : parse source with
  | error fault => rfl
  | ok parsed =>
      simp only [hparse] at havoids ⊢
      by_cases herrors : parsed.errors = []
      · rw [if_pos herrors] at havoids
        rw [if_pos herrors, if_pos herrors]
        exact recordEvaluate_given settings scope _ hroot havoids
      · rw [if_neg herrors, if_neg herrors]

end Comparison

section Sessions

variable {root : ScopeId} {name : String} {v : Value} {h : Heap}

/-- What happens where only phrases without the name are evaluated does not concern the name. -/
theorem Event.Confined.avoids {event : Event}
    (hevent : event.Confined (fun n => n.names name = false) root) : event.Avoids name := by
  cases event with
  | bound scope text w =>
      obtain ⟨-, ⟨e, hnames⟩, -⟩ := hevent
      exact of_decide_eq_false hnames
  | yielded scope e w =>
      cases e with
      | ident text => exact of_decide_eq_false hevent.2.1
      | _ => trivial
  | _ => trivial

/-- A source in which the name does not occur, if it can be run at all. -/
def Unmentioned (name source : String) : Prop :=
  ∀ p, parse source = .ok ⟨p, []⟩ → p.mentions name = false

instance (name source : String) : Decidable (Unmentioned name source) :=
  decidable_of_iff
    ((match parse source with
      | .ok ⟨p, []⟩ => !p.mentions name
      | _ => true) = true) (by
    unfold Unmentioned
    split
    · next p hparse =>
        rw [Bool.not_eq_true']
        constructor
        · intro h q hq
          rw [hparse] at hq
          cases hq
          exact h
        · exact fun h => h p hparse
    · next hparse => exact ⟨fun _ p hp => absurd hp (hparse p), fun _ => rfl⟩)

theorem Session.history_given {scope : ScopeId} (hscope : root ≤ scope)
    (hh : h.Confined (fun n => n.names name = false) root) {sources : List (Settings × String)}
    (hsources : ∀ run ∈ sources, Unmentioned name run.2) :
    (∀ event ∈ Session.history ⟨h, scope⟩ sources, event.Avoids name) ∧
      Session.history ⟨h.given root name v, scope⟩ sources = Session.history ⟨h, scope⟩ sources ∧
      (Session.runAll ⟨h.given root name v, scope⟩ sources).1 =
        (Session.runAll ⟨h, scope⟩ sources).1 := by
  induction sources generalizing h with
  | nil => exact ⟨by simp [history], rfl, rfl⟩
  | cons source rest ih =>
      obtain ⟨settings, source⟩ := source
      obtain ⟨hfirst, hrest⟩ := List.forall_mem_cons.mp hsources
      have hphrases : ∀ p, parse source = .ok ⟨p, []⟩ → ∀ n ∈ p.phrases, n.names name = false :=
        fun p hp n hn => Program.not_names_of_mem_phrases (hfirst p hp) hn
      obtain ⟨hconfined, -⟩ := recordRun_confined settings hscope hphrases hh
      have havoids : ∀ event ∈ (recordRun settings scope source h).1, event.Avoids name :=
        fun event hmem => (hconfined event hmem).avoids
      have hsame := recordRun_given (v := v) settings scope source hh.root_lt havoids
      have hafter := replay_given (v := v) havoids hh.root_lt
      obtain ⟨hmore, hhistory, hresults⟩ := ih (confined_replay hconfined hh) hrest
      refine ⟨?_, ?_, ?_⟩
      · simp only [history, heap_run]
        exact List.forall_mem_append.mpr ⟨havoids, hmore⟩
      · simp only [history, heap_run, hsame, hafter, hhistory]
      · simp only [runAll, outcome_run, heap_run, hsame, hafter, hresults]

/-- A new session in a heap that may hold others. -/
def Session.newIn (h : Heap) (builtins : Registry) : Session :=
  ⟨h.addRoot builtins, h.next⟩

/-- A new session in which a name is bound first. -/
def Session.newWith (h : Heap) (builtins : Registry) (name : String) (v : Value) : Session :=
  ⟨(h.addRoot builtins).bind h.next name v, h.next⟩

theorem Session.newWith_eq (h : Heap) (builtins : Registry) (name : String) (v : Value) :
    Session.newWith h builtins name v =
      ⟨(h.addRoot builtins).given h.next name v, h.next⟩ := by
  simp only [newWith, mk.injEq, and_true, Heap.bind, Heap.given, Heap.mk.injEq]
  refine Array.ext_getElem? fun j => ?_
  simp only [Array.getElem?_modify, Heap.addRoot, Heap.add, Array.getElem?_push, Heap.next]
  by_cases hj : h.scopes.size = j
  · simp [hj, Table.put]
  · simp [hj]

end Sessions

/-- Let sources be given in which a name does not occur, and let two new sessions run them, one of which
binds the name first, to any value.

The same happens in both, with the same results.  Both leave the same scopes behind, except that the root
of the one has the binding before what the other one's root binds, where the name is not bound. -/
theorem run_with_unmentioned_binding (h : Heap) (builtins : Registry) (name : String) (v : Value)
    {sources : List (Settings × String)} (hsources : ∀ run ∈ sources, Unmentioned name run.2) :
    let plain := Session.newIn h builtins
    let given := Session.newWith h builtins name v
    given.history sources = plain.history sources ∧
      (given.runAll sources).1 = (plain.runAll sources).1 ∧
      (given.runAll sources).2.heap.serial = (plain.runAll sources).2.heap.serial ∧
      (∀ j, j ≠ h.next →
        (given.runAll sources).2.heap.scopes[j]? = (plain.runAll sources).2.heap.scopes[j]?) ∧
      ∃ s, (plain.runAll sources).2.heap.scopes[h.next]? = some s ∧ name ∉ Table.keys s.bindings ∧
        (given.runAll sources).2.heap.scopes[h.next]? =
          some { s with bindings := (name, v) :: s.bindings } := by
  intro plain given
  have hgiven : given = ⟨plain.heap.given h.next name v, h.next⟩ := Session.newWith_eq ..
  have hconfined : plain.heap.Confined (fun n => n.names name = false) h.next :=
    Heap.confined_addRoot h builtins
  have hroot := hconfined.root_lt
  obtain ⟨havoids, hhistory, hresults⟩ :=
    Session.history_given (v := v) (Nat.le_refl _) hconfined hsources
  have hheap : (given.runAll sources).2.heap =
      (plain.runAll sources).2.heap.given h.next name v := by
    rw [Session.heap_runAll, Session.heap_runAll, hgiven, hhistory]
    exact replay_given havoids hroot
  have hunbound : (plain.runAll sources).2.heap.Unbound h.next name := by
    rw [Session.heap_runAll]
    refine unbound_replay havoids hroot ?_
    intro s hs
    rcases Heap.scopes_of_add hs with ⟨-, rfl⟩ | hs
    · exact List.not_mem_nil
    · exact absurd (Array.getElem?_eq_some_iff.mp hs).choose (Nat.lt_irrefl _)
  have hlt : h.next < (plain.runAll sources).2.heap.next := by
    rw [Session.heap_runAll]
    exact Nat.lt_of_lt_of_le hroot (next_le_replay _ _)
  have hscope : (plain.runAll sources).2.heap.scopes[h.next]? =
      some (plain.runAll sources).2.heap.scopes[h.next] := Array.getElem?_eq_getElem hlt
  refine ⟨?_, ?_, ?_, ?_, _, hscope, hunbound _ hscope, ?_⟩
  · rw [hgiven]
    exact hhistory
  · rw [hgiven]
    exact hresults
  · rw [hheap, Heap.serial_given]
  · intro j hj
    rw [hheap, Heap.scopes_given, if_neg hj.symm]
  · rw [hheap, Heap.scopes_given, if_pos rfl, hscope]
    rfl

/-- A function that calls itself and a built-in function, run where `len` is the built-in function and where
it is bound to a truth value. -/
theorem run_with_unmentioned_binding_builtin :
    let sources :=
      [(Settings.unset, "let f = fn(n) \x7b if (n < 1) \x7b return [n]; \x7d push(f(n - 1), n) \x7d;"),
        (Settings.unset, "let a = f(2); [a[2], length]"), (Settings.unset, "first(a) - f")]
    (∀ run ∈ sources, Unmentioned "len" run.2) ∧
      ((Session.newWith .empty .default "len" (.boolean false)).runAll sources).1 =
        ((Session.newIn .empty .default).runAll sources).1 := by
  intro sources
  have hsources : ∀ run ∈ sources, Unmentioned "len" run.2 := by decide +kernel
  obtain ⟨-, hresults, -⟩ :=
    run_with_unmentioned_binding .empty .default "len" (.boolean false) hsources
  exact ⟨hsources, hresults⟩

end Scriptlet
