import Scriptlet.Proofs.Evaluation.Rules

/-!
# Parameters

The scope that a call of a function makes, with the arguments bound in it.

**Binding.**  Parameters are bound from left to right, each to the argument at its own position.  A name may
stand among them more than once; then the last of its positions counts, even if there is no argument left for
it and null takes the place of an argument that was bound before.

**Looking up.**  A parameter hides whatever its name means outside, also if it is bound to null, and also if
it has the name of a built-in function.  Any other name is looked up in the scope of the function, and finds
what that binds at the time; it need not have been bound when the call was made.

**Results.**
* `bindParameters_get?`: what a parameter is bound to, by induction on the parameters.
* `lookup_replay`: what is found from the scope of a call at any later time.
* `call_binds_parameters`: the scope of a call, and what is found from it.
-/

namespace Scriptlet

/-- The position is the last one of the name. -/
def LastAt (names : List String) (name : String) (i : Nat) : Prop :=
  names[i]? = some name ∧ ∀ j, i < j → names[j]? ≠ some name

section Binding

variable {t : Table String Value} {name : String} {parameters : List String}

/-- The first parameter is bound to the first argument, and the others to the others. -/
theorem bindParameters_cons (t : Table String Value) (name : String) (parameters : List String)
    (arguments : List Value) :
    bindParameters t (name :: parameters) arguments =
      bindParameters (Table.put name (arguments[0]?.getD .null) t) parameters arguments.tail := by
  cases arguments with
  | nil => rfl
  | cons v vs => rfl

theorem nodup_keys_bindParameters (ht : (Table.keys t).Nodup) (parameters : List String)
    (arguments : List Value) : (Table.keys (bindParameters t parameters arguments)).Nodup := by
  induction parameters generalizing t arguments with
  | nil => exact ht
  | cons name parameters ih =>
      rw [bindParameters_cons]
      exact ih (Table.nodup_keys_put ht _ _) _

/-- The names that are bound are those that were bound before and the parameters. -/
theorem mem_keys_bindParameters (t : Table String Value) (parameters : List String)
    (arguments : List Value) :
    name ∈ Table.keys (bindParameters t parameters arguments) ↔
      name ∈ Table.keys t ∨ name ∈ parameters := by
  induction parameters generalizing t arguments with
  | nil => simp [bindParameters]
  | cons first parameters ih =>
      have hput : name ∈ Table.keys (Table.put first (arguments[0]?.getD .null) t) ↔
          name ∈ Table.keys t ∨ name = first := by
        rw [Table.keys_put]
        split
        · next hmem => exact ⟨Or.inl, fun h => h.elim id fun heq => heq ▸ hmem⟩
        · simp
      rw [bindParameters_cons, ih, hput, List.mem_cons, or_assoc]

/-- What is not the name of a parameter keeps its value. -/
theorem bindParameters_get?_of_not_mem (hname : name ∉ parameters) (t : Table String Value)
    (arguments : List Value) :
    Table.get? name (bindParameters t parameters arguments) = Table.get? name t := by
  induction parameters generalizing t arguments with
  | nil => rfl
  | cons first parameters ih =>
      rw [List.mem_cons, not_or] at hname
      rw [bindParameters_cons, ih hname.2, Table.get?_put, if_neg (Ne.symm hname.1)]

/-- A parameter has the argument at its last position, or null if there is none. -/
theorem bindParameters_get? (hname : name ∈ parameters) (t : Table String Value)
    (arguments : List Value) :
    ∃ i, LastAt parameters name i ∧
      Table.get? name (bindParameters t parameters arguments) = some (arguments[i]?.getD .null) := by
  induction parameters generalizing t arguments with
  | nil => cases hname
  | cons first parameters ih =>
      rw [bindParameters_cons]
      -- If the name comes again, its last position is among the others; if not, it is this one.
      by_cases hlater : name ∈ parameters
      · obtain ⟨i, ⟨hi, hlast⟩, hget⟩ := ih hlater (Table.put first (arguments[0]?.getD .null) t)
          arguments.tail
        refine ⟨i + 1, ⟨hi, fun j hj => ?_⟩, ?_⟩
        · cases j with
          | zero => cases hj
          | succ j => exact hlast j (Nat.lt_of_succ_lt_succ hj)
        · rw [hget, List.getElem?_tail]
      · have hfirst : first = name := by
          rcases List.mem_cons.mp hname with heq | hmem
          · exact heq.symm
          · exact absurd hmem hlater
        refine ⟨0, ⟨congrArg some hfirst, fun j hj => ?_⟩, ?_⟩
        · cases j with
          | zero => cases hj
          | succ j => exact fun heq => hlater (List.mem_of_getElem? heq)
        · rw [bindParameters_get?_of_not_mem hlater, Table.get?_put, if_pos hfirst]

end Binding

section Calls

variable {f : Closure} {arguments : List Value} {h after : Heap} {j : ScopeId} {s : Scope}

/-- The names that a history binds in a scope. -/
def boundNames (j : ScopeId) (events : List Event) : List String :=
  events.filterMap fun
    | .bound k name _ => if k = j then some name else none
    | _ => none

theorem mem_boundNames {events : List Event} {name : String} :
    name ∈ boundNames j events ↔ ∃ v, .bound j name v ∈ events := by
  rw [boundNames, List.mem_filterMap]
  constructor
  · rintro ⟨event, hmem, hevent⟩
    cases event with
    | bound k text v =>
        obtain ⟨rfl, rfl⟩ : k = j ∧ text = name := by simpa using hevent
        exact ⟨v, hmem⟩
    | _ => cases hevent
  · rintro ⟨v, hmem⟩
    exact ⟨_, hmem, if_pos rfl⟩

/-- What any history does to a scope that was there before it. -/
theorem replay_keeps_others (events : List Event) (hs : h.scopes[j]? = some s) :
    ∃ s', (replay events h).scopes[j]? = some s' ∧ s.Keeps (boundNames j events) s' := by
  have hbound : ∀ name v, .bound j name v ∈ events → j = j ∧ name ∈ boundNames j events :=
    fun name v hmem => ⟨rfl, mem_boundNames.mpr ⟨v, hmem⟩⟩
  obtain ⟨s', hs', hkeeps, -⟩ := replay_keeps hbound hs
  exact ⟨s', hs', hkeeps⟩

/-- One scope has been made, and nothing else has changed. -/
structure Heap.Gains (h after : Heap) (s : Scope) : Prop where
  fresh : h.scopes[h.next]? = none
  made : after.scopes[h.next]? = some s
  others : ∀ j ≠ h.next, after.scopes[j]? = h.scopes[j]?
  serial : after.serial = h.serial

/-- The scope lies in that of the function, and binds the parameters and nothing else. -/
structure Closure.Binds (f : Closure) (arguments : List Value) (s : Scope) : Prop where
  outer : s.outer = some f.scope
  nodup : (Table.keys s.bindings).Nodup
  names : ∀ name, name ∈ Table.keys s.bindings ↔ name ∈ f.parameters
  last : ∀ name ∈ f.parameters, ∃ i, LastAt f.parameters name i ∧
    Table.get? name s.bindings = some (arguments[i]?.getD .null)

/-- The scope that a call makes. -/
theorem Eval.start_enter (f : Closure) (arguments : List Value) (h : Heap) :
    ∃ s after, (Eval.enter f arguments).start h = (.ok h.next, after) ∧ h.Gains after s ∧
      f.Binds arguments s ∧ s.builtins = h.builtins f.scope := by
  refine ⟨⟨bindParameters [] f.parameters arguments, some f.scope, h.builtins f.scope⟩, _, rfl,
    ⟨?_, ?_, ?_, rfl⟩, ⟨rfl, ?_, ?_, ?_⟩, rfl⟩
  · exact Array.getElem?_eq_none (Nat.le_refl _)
  · exact Heap.scopes_addInside_new rfl _ _
  · intro j hj
    by_cases hlt : j < h.next
    · exact h.kept_addInside f.scope _ j hlt
    · have hle : h.next ≤ j := Nat.le_of_not_lt hlt
      have hout : (h.addInside f.scope (bindParameters [] f.parameters arguments)).next ≤ j := by
        rw [Heap.addInside, Heap.next_add]
        exact Nat.lt_of_le_of_ne hle (Ne.symm hj)
      exact (Array.getElem?_eq_none hout).trans (Array.getElem?_eq_none hle).symm
  · have hnone : (Table.keys ([] : Table String Value)).Nodup := List.nodup_nil
    exact nodup_keys_bindParameters hnone _ _
  · intro name
    rw [mem_keys_bindParameters]
    simp [Table.keys]
  · intro name hname
    exact bindParameters_get? hname [] arguments

/-- From the scope of a call, what it does not bind is found where the function was made. -/
theorem lookup_of_binds {later : Heap} (hscope : f.scope < h.next)
    (hs : later.scopes[h.next]? = some s) (houter : s.outer = some f.scope)
    (hbuiltins : s.builtins = later.builtins f.scope) (name : String) :
    later.lookup h.next name = (Table.get? name s.bindings).or (later.lookup f.scope name) ∧
      later.resolve h.next name = (Table.get? name s.bindings).or (later.resolve f.scope name) := by
  have hlookup := Heap.lookup_inside hs houter hscope name
  have hown : later.builtins h.next = later.builtins f.scope := by
    rw [Heap.builtins, hs]
    exact hbuiltins
  refine ⟨hlookup, ?_⟩
  rw [Heap.resolve, Heap.resolve, hlookup, hown, Option.or_assoc]

/-- The same at any later time, if the name has not been bound anew in the scope of the call. -/
theorem lookup_replay (hscope : f.scope < h.next) (hgains : h.Gains after s)
    (hbinds : f.Binds arguments s) (hbuiltins : s.builtins = h.builtins f.scope) (events : List Event)
    {name : String} (hname : ∀ v, .bound h.next name v ∉ events) :
    let later := replay events after
    later.lookup h.next name = (Table.get? name s.bindings).or (later.lookup f.scope name) ∧
      later.resolve h.next name = (Table.get? name s.bindings).or (later.resolve f.scope name) := by
  intro later
  obtain ⟨own, hown, hkeeps⟩ := replay_keeps_others events hgains.made
  have hthere : after.scopes[f.scope]? = some h.scopes[f.scope] := by
    rw [hgains.others _ (Nat.ne_of_lt hscope)]
    exact Array.getElem?_eq_getElem hscope
  obtain ⟨outside, houtside, hkept⟩ := replay_keeps_others events hthere
  have hsame : own.builtins = later.builtins f.scope := by
    have hthen : h.builtins f.scope = h.scopes[f.scope].builtins := by
      rw [Heap.builtins, Array.getElem?_eq_getElem hscope]
    have hnow : later.builtins f.scope = outside.builtins := by
      rw [Heap.builtins, houtside]
    rw [hkeeps.builtins, hbuiltins, hthen, hnow, hkept.builtins]
  have hvalue : Table.get? name own.bindings = Table.get? name s.bindings := by
    refine hkeeps.others name fun hmem => ?_
    obtain ⟨v, hv⟩ := mem_boundNames.mp hmem
    exact hname v hv
  rw [← hvalue]
  exact lookup_of_binds hscope hown (hkeeps.outer.trans hbinds.outer) hsame name

end Calls

/-- A call of a function makes one scope, inside that of the function, and changes nothing else.  The scope
binds the names of the parameters and no others: each to the argument at the last position of the name, or
to null if there are fewer arguments than that.

Whatever happens afterwards, as long as it does not bind a name anew in the new scope: a parameter is found
with the value it got from the call, and any other name with the value that it has in the scope of the
function at that time. -/
theorem call_binds_parameters (f : Closure) (arguments : List Value) {h : Heap}
    (hscope : f.scope < h.next) :
    ∃ s after, (Eval.enter f arguments).start h = (.ok h.next, after) ∧ h.Gains after s ∧
      f.Binds arguments s ∧
      ∀ events name, (∀ v, .bound h.next name v ∉ events) →
        let later := replay events after
        (name ∈ f.parameters → later.lookup h.next name = Table.get? name s.bindings ∧
          later.resolve h.next name = Table.get? name s.bindings) ∧
        (name ∉ f.parameters → later.lookup h.next name = later.lookup f.scope name ∧
          later.resolve h.next name = later.resolve f.scope name) := by
  obtain ⟨s, after, hstart, hgains, hbinds, hbuiltins⟩ := Eval.start_enter f arguments h
  refine ⟨s, after, hstart, hgains, hbinds, fun events name hname => ?_⟩
  obtain ⟨hlookup, hresolve⟩ := lookup_replay hscope hgains hbinds hbuiltins events hname
  constructor
  · intro hmem
    obtain ⟨i, -, hget⟩ := hbinds.last name hmem
    rw [hlookup, hresolve, hget, Option.some_or, Option.some_or]
    exact ⟨rfl, rfl⟩
  · intro hmem
    have hget : Table.get? name s.bindings = none :=
      Table.get?_of_not_mem_keys fun hkey => hmem ((hbinds.names name).mp hkey)
    rw [hlookup, hresolve, hget, Option.none_or, Option.none_or]
    exact ⟨rfl, rfl⟩

/-- One argument for three parameters, two of one name and one with that of a built-in function: all of them
are null.  A name that is bound outside after the call is found from its scope. -/
theorem call_binds_parameters_repeated :
    let h := Heap.empty.addRoot .default
    let f : Closure := ⟨0, ["x", "len", "x"], [], 0⟩
    f.scope < h.next ∧
      ∃ after, (Eval.enter f [.integer 1]).start h = (.ok h.next, after) ∧
        let later := replay [.bound 0 "z" (.integer 5)] after
        later.resolve h.next "x" = some .null ∧ later.resolve h.next "len" = some .null ∧
          later.resolve h.next "z" = some (.integer 5) := by
  intro h f
  have hscope : f.scope < h.next := by decide
  obtain ⟨s, after, hstart, hgains, hbinds, hfinds⟩ := call_binds_parameters f [.integer 1] hscope
  refine ⟨hscope, after, hstart, ?_⟩
  intro later
  have hnone : ∀ i, 1 ≤ i → ([.integer 1] : List Value)[i]?.getD .null = .null := by
    intro i hi
    rw [List.getElem?_eq_none hi]
    rfl
  have hother : ∀ name v, .bound h.next name v ∉ [Event.bound 0 "z" (.integer 5)] := by
    simp [h, Heap.next, Heap.addRoot, Heap.add, Heap.empty]
  have hfinds := fun name => hfinds [.bound 0 "z" (.integer 5)] name (hother name)
  have hx : Table.get? "x" s.bindings = some .null := by
    obtain ⟨i, ⟨-, hlast⟩, hget⟩ := hbinds.last "x" (by decide)
    have hi : 2 ≤ i := Nat.le_of_not_lt fun hi => hlast 2 hi rfl
    rw [hget, hnone i (Nat.le_of_succ_le hi)]
  have hlen : Table.get? "len" s.bindings = some .null := by
    obtain ⟨i, ⟨-, hlast⟩, hget⟩ := hbinds.last "len" (by decide)
    have hi : 1 ≤ i := Nat.le_of_not_lt fun hi => hlast 1 hi rfl
    rw [hget, hnone i hi]
  have hz : later.resolve f.scope "z" = some (.integer 5) := by
    obtain ⟨hlt, -⟩ := Array.getElem?_eq_some_iff.mp hgains.made
    exact (Heap.resolve_bind (Nat.lt_trans hscope hlt) "z" (.integer 5) "z").trans (if_pos rfl)
  refine ⟨?_, ?_, ?_⟩
  · exact ((hfinds "x").1 (by decide)).2.trans hx
  · exact ((hfinds "len").1 (by decide)).2.trans hlen
  · exact ((hfinds "z").2 (by decide)).2.trans hz

end Scriptlet
