import Scriptlet.Proofs.Evaluation.Contents
import Scriptlet.Proofs.Evaluation.History

/-!
# What an evaluation may write

**Frame.**  Evaluating a phrase in a scope changes no other scope that was there before.  In its own
scope it takes no binding away, and changes only names that a `let` of the phrase binds, outside the
functions in it.

**Calls.**  A call writes to the scope it has made and to no other, and from the moment it returns
nothing is ever written to that scope again.

**The invariant.**  `Orderly scope names h events`, of a history that starts with the heap `h`: it
binds the given names in the given scope, or any name in a scope made since `h`; and what a call has
left is not touched again.  Histories that follow one another keep it (`Orderly.append`), and so does
the history of a call, seen from the scope it is made from (`orderly_entered`, `orderly_left`).

**Results.**
* `Orderly.keeps`: what an orderly history does to a scope that was there before it.
* `Session.history_orderly`: a session is orderly from its first source to its last.
* `evaluation_keeps_scopes`: the two laws above.
-/

namespace Scriptlet

section Names

mutual

/-- The names that the `let` statements in an expression bind, outside functions. -/
def Expr.letNames : Expr → List String
  | .unary _ right => right.letNames
  | .binary left _ right => left.letNames ++ right.letNames
  | .conditional condition consequence alternative =>
      condition.letNames ++ Stmt.letNamesAmong consequence ++
        (match alternative with
          | none => []
          | some block => Stmt.letNamesAmong block)
  | .call callee arguments => callee.letNames ++ Expr.letNamesAmong arguments
  | .array elements => Expr.letNamesAmong elements
  | .index left subscript => left.letNames ++ subscript.letNames
  | .hash pairs => Expr.letNamesInPairs pairs
  | _ => []

/-- The names that the `let` statements in a statement bind, outside functions. -/
def Stmt.letNames : Stmt → List String
  | .bind name value => name :: value.letNames
  | .ret value => value.letNames
  | .expr expression => expression.letNames
  | .block body => Stmt.letNamesAmong body

/-- The names that the `let` statements in a block bind, outside functions. -/
def Stmt.letNamesAmong : List Stmt → List String
  | [] => []
  | s :: rest => s.letNames ++ Stmt.letNamesAmong rest

/-- The names that the `let` statements in several expressions bind, outside functions. -/
def Expr.letNamesAmong : List Expr → List String
  | [] => []
  | e :: rest => e.letNames ++ Expr.letNamesAmong rest

/-- The names that the `let` statements in pairs bind, outside functions. -/
def Expr.letNamesInPairs : List (Expr × Expr) → List String
  | [] => []
  | (key, value) :: rest => key.letNames ++ (value.letNames ++ Expr.letNamesInPairs rest)

end

/-- The names that the `let` statements in a phrase bind, outside functions. -/
def Node.letNames : Node → List String
  | program p => Stmt.letNamesAmong p.statements
  | statement s => s.letNames
  | expression e => e.letNames

end Names

/-- Whether an event makes a scope or binds a name in it. -/
def Event.touches (scope : ScopeId) : Event → Prop
  | bound j _ _ => j = scope
  | entered j _ _ => j = scope
  | _ => False

/-- What the earlier event leaves, the later one does not touch. -/
def Event.Spares (earlier later : Event) : Prop :=
  ∀ j, earlier = .left j → ¬later.touches j

/-- Scopes get their numbers in the order in which they are made. -/
def Numbered : Heap → List Event → Prop
  | _, [] => True
  | h, event :: events =>
      (∀ j f arguments, event = .entered j f arguments → j = h.next) ∧
        Numbered (event.apply h) events

/-- The history binds the names in the scope, or any name in a newer one, and does not come back to
scopes that calls have left. -/
structure Orderly (scope : ScopeId) (names : List String) (h : Heap) (events : List Event) :
    Prop where
  numbered : Numbered h events
  /-- Names are bound in the scope at hand, or in one made since. -/
  bound : ∀ j name v, .bound j name v ∈ events → (j = scope ∧ name ∈ names) ∨ h.next ≤ j
  /-- What is left was made since. -/
  left : ∀ j, .left j ∈ events → ∃ f arguments, .entered j f arguments ∈ events
  /-- What is left is not touched again. -/
  spared : scope < h.next → events.Pairwise Event.Spares

section Growth

theorem Event.next_entered (j : ScopeId) (f : Closure) (arguments : List Value) (h : Heap) :
    ((Event.entered j f arguments).apply h).next = h.next + 1 :=
  Heap.next_add h _

theorem Event.next_le_apply (event : Event) (h : Heap) : h.next ≤ (event.apply h).next := by
  cases event with
  | bound scope name v => exact Nat.le_of_eq (Heap.next_bind h scope name v).symm
  | entered scope f arguments =>
      rw [next_entered]
      exact Nat.le_succ _
  | _ => exact Nat.le_refl _

theorem next_le_replay (events : List Event) (h : Heap) : h.next ≤ (replay events h).next := by
  induction events generalizing h with
  | nil => exact Nat.le_refl _
  | cons event events ih =>
      rw [replay_cons]
      exact Nat.le_trans (event.next_le_apply h) (ih (event.apply h))

theorem numbered_append (events more : List Event) (h : Heap) :
    Numbered h (events ++ more) ↔ Numbered h events ∧ Numbered (replay events h) more := by
  induction events generalizing h with
  | nil => simp [Numbered]
  | cons event events ih =>
      rw [List.cons_append, Numbered, Numbered, ih, replay_cons, and_assoc]

/-- A scope made in a history is newer than those before it, and there is one after it. -/
theorem Numbered.entered {events : List Event} {h : Heap} (hn : Numbered h events) {j : ScopeId}
    {f : Closure} {arguments : List Value} (hmem : .entered j f arguments ∈ events) :
    h.next ≤ j ∧ j < (replay events h).next := by
  induction events generalizing h with
  | nil => cases hmem
  | cons event events ih =>
      obtain ⟨hfirst, hrest⟩ := hn
      rw [replay_cons]
      rcases List.mem_cons.mp hmem with hmem | hmem
      · have hj := hfirst j f arguments hmem.symm
        have hgrow := next_le_replay events (event.apply h)
        rw [← hmem, Event.next_entered] at hgrow
        rw [← hmem, hj]
        rw [hj] at hgrow
        exact ⟨Nat.le_refl _, hgrow⟩
      · obtain ⟨hlow, hhigh⟩ := ih hrest hmem
        exact ⟨Nat.le_trans (event.next_le_apply h) hlow, hhigh⟩

end Growth

namespace Orderly

variable {scope : ScopeId} {names : List String} {h : Heap} {events more : List Event}

theorem nil : Orderly scope names h [] :=
  ⟨trivial, by simp, by simp, fun _ => List.Pairwise.nil⟩

/-- An event that neither binds, makes a scope nor leaves one. -/
theorem silent {event : Event} (htouch : ∀ j, ¬event.touches j) (hleft : ∀ j, event ≠ .left j) :
    Orderly scope names h [event] := by
  refine ⟨⟨?_, trivial⟩, ?_, ?_, fun _ => List.pairwise_singleton _ _⟩
  · intro j f arguments hevent
    exact absurd rfl (hevent ▸ htouch j)
  · intro j name v hmem
    rw [List.mem_singleton] at hmem
    exact absurd rfl (hmem ▸ htouch j)
  · intro j hmem
    rw [List.mem_singleton] at hmem
    exact absurd hmem.symm (hleft j)

theorem bind {name : String} (hname : name ∈ names) (v : Value) :
    Orderly scope names h [.bound scope name v] := by
  refine ⟨⟨by simp, trivial⟩, ?_, by simp, fun _ => List.pairwise_singleton _ _⟩
  intro j name' v' hmem
  rw [List.mem_singleton] at hmem
  cases hmem
  exact Or.inl ⟨rfl, hname⟩

theorem mono {names' : List String} (ho : Orderly scope names h events) (hsub : names ⊆ names') :
    Orderly scope names' h events := by
  refine ⟨ho.numbered, ?_, ho.left, ho.spared⟩
  intro j name v hmem
  rcases ho.bound j name v hmem with ⟨hj, hname⟩ | hj
  · exact Or.inl ⟨hj, hsub hname⟩
  · exact Or.inr hj

theorem append (ho : Orderly scope names h events)
    (hmore : Orderly scope names (replay events h) more) :
    Orderly scope names h (events ++ more) := by
  have hnext := next_le_replay events h
  refine ⟨(numbered_append events more h).mpr ⟨ho.numbered, hmore.numbered⟩, ?_, ?_, ?_⟩
  · intro j name v hmem
    rcases List.mem_append.mp hmem with hmem | hmem
    · exact ho.bound j name v hmem
    · rcases hmore.bound j name v hmem with hj | hj
      · exact Or.inl hj
      · exact Or.inr (Nat.le_trans hnext hj)
  · intro j hmem
    rcases List.mem_append.mp hmem with hmem | hmem
    · obtain ⟨f, arguments, hentered⟩ := ho.left j hmem
      exact ⟨f, arguments, List.mem_append_left _ hentered⟩
    · obtain ⟨f, arguments, hentered⟩ := hmore.left j hmem
      exact ⟨f, arguments, List.mem_append_right _ hentered⟩
  · intro hscope
    have hscope' : scope < (replay events h).next := Nat.lt_of_lt_of_le hscope hnext
    rw [List.pairwise_append]
    refine ⟨ho.spared hscope, hmore.spared hscope', ?_⟩
    -- A scope left in the first part is newer than the one at hand and older than all that follow.
    intro earlier hearlier later hlater j hj htouch
    subst hj
    obtain ⟨f, arguments, hentered⟩ := ho.left j hearlier
    obtain ⟨hnew, hold⟩ := ho.numbered.entered hentered
    cases later with
    | bound k name v =>
        cases htouch
        rcases hmore.bound j name v hlater with ⟨rfl, -⟩ | hk
        · exact Nat.not_le_of_lt hscope hnew
        · exact Nat.not_le_of_lt hold hk
    | entered k f arguments =>
        cases htouch
        exact Nat.not_le_of_lt hold (hmore.numbered.entered hlater).1
    | _ => exact htouch

/-- A scope made in the history may be left at its end. -/
theorem leave {j : ScopeId} (ho : Orderly scope names h events)
    (hmade : ∃ f arguments, .entered j f arguments ∈ events) :
    Orderly scope names h (events ++ [.left j]) := by
  refine ⟨(numbered_append events _ h).mpr ⟨ho.numbered, by simp, trivial⟩, ?_, ?_, ?_⟩
  · intro k name v hmem
    rcases List.mem_append.mp hmem with hmem | hmem
    · exact ho.bound k name v hmem
    · simp at hmem
  · intro k hmem
    have hleft : ∃ f arguments, .entered k f arguments ∈ events := by
      rcases List.mem_append.mp hmem with hmem | hmem
      · exact ho.left k hmem
      · rw [List.mem_singleton] at hmem
        cases hmem
        exact hmade
    obtain ⟨f, arguments, hentered⟩ := hleft
    exact ⟨f, arguments, List.mem_append_left _ hentered⟩
  · intro hscope
    rw [List.pairwise_append]
    refine ⟨ho.spared hscope, List.pairwise_singleton _ _, ?_⟩
    intro earlier _ later hlater k _
    rw [List.mem_singleton] at hlater
    rw [hlater]
    exact id

end Orderly

section Calls

variable {h : Heap} {f : Closure} {arguments : List Value} {events : List Event}

/-- What happens in the scope of a call is new to the scope the call is made from. -/
theorem orderly_entered {inner names : List String} (scope : ScopeId)
    (ho : Orderly h.next inner ((Event.entered h.next f arguments).apply h) events) :
    Orderly scope names h (.entered h.next f arguments :: events) := by
  have hnext := Event.next_entered h.next f arguments h
  refine ⟨⟨?_, ho.numbered⟩, ?_, ?_, ?_⟩
  · intro j g vs hevent
    cases hevent
    rfl
  · intro j name v hmem
    rcases List.mem_cons.mp hmem with hmem | hmem
    · cases hmem
    · right
      rcases ho.bound j name v hmem with ⟨rfl, -⟩ | hj
      · exact Nat.le_refl _
      · rw [hnext] at hj
        exact Nat.le_of_succ_le hj
  · intro j hmem
    rcases List.mem_cons.mp hmem with hmem | hmem
    · cases hmem
    · obtain ⟨g, vs, hentered⟩ := ho.left j hmem
      exact ⟨g, vs, List.mem_cons_of_mem _ hentered⟩
  · intro _
    rw [List.pairwise_cons]
    refine ⟨?_, ?_⟩
    · intro later _ j hj
      cases hj
    · apply ho.spared
      rw [hnext]
      exact Nat.lt_succ_self _

/-- A call that returns leaves its scope last. -/
theorem orderly_left {inner names : List String} (scope : ScopeId)
    (ho : Orderly h.next inner ((Event.entered h.next f arguments).apply h) events) :
    Orderly scope names h (.entered h.next f arguments :: (events ++ [.left h.next])) :=
  (orderly_entered scope ho).leave ⟨f, arguments, List.mem_cons_self⟩

end Calls

section Evaluations

variable {α β : Type} {scope : ScopeId} {names : List String}

/-- Every history of the evaluation is orderly. -/
def Frames (scope : ScopeId) (names : List String) (x : Recorded α) : Prop :=
  ∀ h, Orderly scope names h (x h).1

theorem frames_pure (a : α) : Frames scope names (pure a) :=
  fun _ => .nil

theorem Frames.mono {names' : List String} {x : Recorded α} (hx : Frames scope names x)
    (hsub : names ⊆ names') : Frames scope names' x :=
  fun h => (hx h).mono hsub

theorem Frames.bind {x : Recorded α} {f : α → Recorded β} (hx : Frames scope names x)
    (hf : ∀ a, Frames scope names (f a)) : Frames scope names (x >>= f) := by
  intro h
  have hfirst := hx h
  rw [Recorded.run_bind]
  generalize x h = result at hfirst
  obtain ⟨events, outcome⟩ := result
  cases outcome with
  | error e => exact hfirst
  | ok a => exact hfirst.append (hf a (replay events h))

theorem Frames.noting {x : Recorded Value} {event : Value → Event} (hx : Frames scope names x)
    (htouch : ∀ v j, ¬(event v).touches j) (hleft : ∀ v j, event v ≠ .left j) :
    Frames scope names (Recorded.noting event x) := by
  refine hx.bind fun v => ?_
  refine Frames.bind (fun _ => ?_) fun _ => frames_pure v
  exact .silent (htouch v) (hleft v)

theorem Frames.unlessError {x : Recorded Value} {f : Value → Recorded Value}
    (hx : Frames scope names x) (hf : ∀ v, Frames scope names (f v)) :
    Frames scope names (Recorded.unlessError x f) := by
  refine hx.bind fun v => ?_
  by_cases hv : v.isError = true
  · rw [if_pos hv]
    exact frames_pure v
  · rw [if_neg hv]
    exact hf v

theorem frames_newSerial : Frames scope names Recorded.newSerial :=
  fun _ => .silent (fun _ => id) (fun _ => by simp)

theorem frames_calling (f : Value) (arguments : List Value) :
    Frames scope names (Recorded.happen (.calling f arguments)) :=
  fun _ => .silent (fun _ => id) (fun _ => by simp)

/-- Noting the value of an expression. -/
theorem Frames.yielding {x : Recorded Value} {e : Expr} (hx : Frames scope names x) :
    Frames scope names (Recorded.noting (.yielded scope e) x) :=
  hx.noting (fun _ _ => id) (fun _ _ => by simp)

/-- Noting the value of a block. -/
theorem Frames.closing {x : Recorded Value} {body : Block} (hx : Frames scope names x) :
    Frames scope names (Recorded.noting (.closed scope body) x) :=
  hx.noting (fun _ _ => id) (fun _ _ => by simp)

variable {call : RecordedCaller}

mutual

theorem Expr.frames (hcall : ∀ f arguments names, Frames scope names (call f arguments)) :
    (e : Expr) → Frames scope e.letNames (e.record call scope)
  | .ident text => Frames.yielding fun _ => .nil
  | .integer value => (frames_pure _).yielding
  | .boolean value => (frames_pure _).yielding
  | .string value => (frames_pure _).yielding
  | .unary op right => ((right.frames hcall).unlessError fun v => frames_pure _).yielding
  | .binary left op right => by
      have hleft := (left.frames hcall).mono (List.subset_append_left _ right.letNames)
      have hright := (right.frames hcall).mono (List.subset_append_right left.letNames _)
      refine Frames.yielding ?_
      exact hleft.unlessError fun a => hright.unlessError fun b => frames_pure _
  | .conditional condition consequence none => by
      have hcondition := (condition.frames hcall).mono
        (List.subset_append_left _ (Stmt.letNamesAmong consequence))
      have hthen := (Stmt.framesAll hcall .null consequence).mono
        (List.subset_append_right condition.letNames _)
      rw [Expr.letNames, List.append_nil]
      refine Frames.yielding (hcondition.unlessError fun v => ?_)
      by_cases hv : v.truthy = true
      · rw [if_pos hv]
        exact hthen.closing
      · rw [if_neg hv]
        exact frames_pure _
  | .conditional condition consequence (some block) => by
      have hcondition := (condition.frames hcall).mono
        (List.subset_append_left _ (Stmt.letNamesAmong consequence ++ Stmt.letNamesAmong block))
      have hthen := (Stmt.framesAll hcall .null consequence).mono
        (List.Subset.trans (List.subset_append_left _ (Stmt.letNamesAmong block))
          (List.subset_append_right condition.letNames _))
      have helse := (Stmt.framesAll hcall .null block).mono
        (List.Subset.trans (List.subset_append_right (Stmt.letNamesAmong consequence) _)
          (List.subset_append_right condition.letNames _))
      rw [Expr.letNames, List.append_assoc]
      refine Frames.yielding (hcondition.unlessError fun v => ?_)
      by_cases hv : v.truthy = true
      · rw [if_pos hv]
        exact hthen.closing
      · rw [if_neg hv]
        exact helse.closing
  | .function parameters body =>
      (frames_newSerial.bind fun serial => frames_pure _).yielding
  | .call callee arguments => by
      have hcallee := (callee.frames hcall).mono
        (List.subset_append_left _ (Expr.letNamesAmong arguments))
      have harguments := (Expr.framesAll hcall arguments).mono
        (List.subset_append_right callee.letNames _)
      refine Frames.yielding ?_
      refine hcallee.unlessError fun f => harguments.bind fun result => ?_
      cases result with
      | error e => exact frames_pure _
      | ok vs =>
          refine (frames_calling f vs).bind fun _ => ?_
          exact (hcall f vs _).noting (fun _ _ => id) (fun _ _ => by simp)
  | .array elements => by
      refine Frames.yielding ?_
      refine (Expr.framesAll hcall elements).bind fun result => ?_
      cases result with
      | error e => exact frames_pure _
      | ok vs => exact frames_pure _
  | .index left subscript => by
      have hleft := (left.frames hcall).mono (List.subset_append_left _ subscript.letNames)
      have hsubscript := (subscript.frames hcall).mono (List.subset_append_right left.letNames _)
      refine Frames.yielding ?_
      exact hleft.unlessError fun a => hsubscript.unlessError fun b => frames_pure _
  | .hash pairs => (frames_pure _).yielding
  | .foreign typeName => (frames_pure _).yielding

theorem Expr.framesAll (hcall : ∀ f arguments names, Frames scope names (call f arguments)) :
    (es : List Expr) → Frames scope (Expr.letNamesAmong es) (Expr.recordAll call scope es)
  | [] => frames_pure _
  | e :: rest => by
      have hfirst := (e.frames hcall).mono (List.subset_append_left _ (Expr.letNamesAmong rest))
      have hrest := (Expr.framesAll hcall rest).mono (List.subset_append_right e.letNames _)
      refine hfirst.bind fun v => ?_
      by_cases hv : v.isError = true
      · rw [if_pos hv]
        exact frames_pure _
      · rw [if_neg hv]
        refine hrest.bind fun result => ?_
        cases result with
        | error e => exact frames_pure _
        | ok vs => exact frames_pure _

theorem Stmt.frames (hcall : ∀ f arguments names, Frames scope names (call f arguments)) :
    (s : Stmt) → Frames scope s.letNames (s.record call scope)
  | .bind text value => by
      have hvalue := (value.frames hcall).mono (List.subset_cons_self text _)
      refine hvalue.unlessError fun v => ?_
      exact Frames.bind (fun _ => .bind List.mem_cons_self v) fun _ => frames_pure v
  | .ret value => by
      refine (value.frames hcall).unlessError fun v => ?_
      exact frames_newSerial.bind fun serial => frames_pure _
  | .expr expression => expression.frames hcall
  | .block body => (Stmt.framesAll hcall .null body).closing

theorem Stmt.framesAll (hcall : ∀ f arguments names, Frames scope names (call f arguments))
    (last : Value) :
    (body : List Stmt) → Frames scope (Stmt.letNamesAmong body) (Stmt.recordAll call scope last body)
  | [] => frames_pure _
  | s :: rest => by
      have hfirst := (s.frames hcall).mono (List.subset_append_left _ (Stmt.letNamesAmong rest))
      refine hfirst.bind fun v => ?_
      by_cases hv : v.stops = true
      · rw [if_pos hv]
        exact frames_pure _
      · rw [if_neg hv]
        exact (Stmt.framesAll hcall v rest).mono (List.subset_append_right s.letNames _)

end

end Evaluations

/-- Calls are orderly wherever they are made from. -/
theorem recordWithin_frames (depth : Nat) (scope : ScopeId) (f : Value) (arguments : List Value)
    (names : List String) : Frames scope names (recordWithin depth f arguments) := by
  induction depth generalizing scope f arguments names with
  | zero =>
      cases f with
      | function f => exact fun _ => .nil
      | _ => exact frames_pure _
  | succ depth ih =>
      cases f with
      | function f =>
          intro h
          have hbody : Orderly h.next _ ((Event.entered h.next f arguments).apply h)
              (Stmt.recordBlock (recordWithin depth) h.next f.body
                ((Event.entered h.next f arguments).apply h)).1 :=
            (Stmt.framesAll (ih h.next) .null f.body).closing _
          rw [recordWithin_function]
          generalize Stmt.recordBlock (recordWithin depth) h.next f.body
            ((Event.entered h.next f arguments).apply h) = result at hbody
          obtain ⟨events, outcome⟩ := result
          cases outcome with
          | error e => exact orderly_entered scope hbody
          | ok v => exact orderly_left scope hbody
      | _ => exact frames_pure _

section Scopes

/-- A later state of a scope: nothing is taken away, and only the given names may be bound anew. -/
structure Scope.Keeps (names : List String) (s s' : Scope) : Prop where
  outer : s'.outer = s.outer
  builtins : s'.builtins = s.builtins
  keys : ∀ name ∈ Table.keys s.bindings, name ∈ Table.keys s'.bindings
  others : ∀ name, name ∉ names → Table.get? name s'.bindings = Table.get? name s.bindings

theorem Scope.Keeps.refl (names : List String) (s : Scope) : s.Keeps names s :=
  ⟨rfl, rfl, fun _ => id, fun _ _ => rfl⟩

theorem Scope.Keeps.trans {names : List String} {s t u : Scope} (hst : s.Keeps names t)
    (htu : t.Keeps names u) : s.Keeps names u := by
  refine ⟨?_, ?_, ?_, ?_⟩
  · rw [htu.outer, hst.outer]
  · rw [htu.builtins, hst.builtins]
  · intro name hname
    exact htu.keys name (hst.keys name hname)
  · intro name hname
    rw [htu.others name hname, hst.others name hname]

theorem Scope.keeps_put {names : List String} {name : String} (hname : name ∈ names) (s : Scope)
    (v : Value) : s.Keeps names { s with bindings := Table.put name v s.bindings } := by
  refine ⟨rfl, rfl, ?_, ?_⟩
  · intro other hother
    rw [Table.keys_put]
    by_cases hmem : name ∈ Table.keys s.bindings
    · rw [if_pos hmem]
      exact hother
    · rw [if_neg hmem]
      exact List.mem_append_left _ hother
  · intro other hother
    have hne : name ≠ other := by
      rintro rfl
      exact hother hname
    rw [Table.get?_put, if_neg hne]

variable {scope j : ScopeId} {names : List String} {h : Heap} {s : Scope}

/-- An event changes a scope only by binding one of the names in it. -/
theorem Event.scopes_apply (event : Event)
    (hbound : ∀ name v, event = .bound j name v → j = scope ∧ name ∈ names)
    (hs : h.scopes[j]? = some s) :
    ∃ s', (event.apply h).scopes[j]? = some s' ∧ s.Keeps names s' ∧ (j ≠ scope → s' = s) := by
  cases event with
  | bound k name v =>
      by_cases hk : k = j
      · subst hk
        obtain ⟨hscope, hname⟩ := hbound name v rfl
        refine ⟨_, Heap.scopes_bind_self hs name v, s.keeps_put hname v, ?_⟩
        intro hne
        exact absurd hscope hne
      · refine ⟨s, ?_, .refl names s, fun _ => rfl⟩
        rw [apply, Heap.scopes_bind_of_ne hk, hs]
  | entered k f arguments =>
      exact ⟨s, Heap.scopes_add hs _, .refl names s, fun _ => rfl⟩
  | _ => exact ⟨s, hs, .refl names s, fun _ => rfl⟩

theorem replay_keeps {events : List Event}
    (hbound : ∀ name v, .bound j name v ∈ events → j = scope ∧ name ∈ names)
    (hs : h.scopes[j]? = some s) :
    ∃ s', (replay events h).scopes[j]? = some s' ∧ s.Keeps names s' ∧ (j ≠ scope → s' = s) := by
  induction events generalizing h s with
  | nil => exact ⟨s, hs, .refl names s, fun _ => rfl⟩
  | cons event events ih =>
      obtain ⟨t, ht, hst, hsame⟩ := event.scopes_apply
        (fun name v heq => hbound name v (heq ▸ List.mem_cons_self)) hs
      obtain ⟨u, hu, htu, hsame'⟩ :=
        ih (fun name v hmem => hbound name v (List.mem_cons_of_mem _ hmem)) ht
      refine ⟨u, hu, hst.trans htu, ?_⟩
      intro hne
      rw [hsame' hne, hsame hne]

/-- A scope that is there before an orderly history is kept by it. -/
theorem Orderly.keeps {events : List Event} (ho : Orderly scope names h events)
    (hs : h.scopes[j]? = some s) :
    ∃ s', (replay events h).scopes[j]? = some s' ∧ s.Keeps names s' ∧ (j ≠ scope → s' = s) := by
  refine replay_keeps ?_ hs
  intro name v hmem
  obtain ⟨hlt, -⟩ := Array.getElem?_eq_some_iff.mp hs
  rcases ho.bound j name v hmem with hscope | hnew
  · exact hscope
  · exact absurd hnew (Nat.not_le_of_lt hlt)

end Scopes

section Runs

theorem Node.frames {call : RecordedCaller} {scope : ScopeId}
    (hcall : ∀ f arguments names, Frames scope names (call f arguments)) (n : Node) :
    Frames scope n.letNames (n.record call scope) := by
  cases n with
  | program p => exact (Stmt.framesAll hcall .null p.statements).bind fun v => frames_pure _
  | statement s => exact s.frames hcall
  | expression e => exact e.frames hcall

theorem recordEvaluate_orderly (settings : Settings) (scope : ScopeId) (n : Node) (h : Heap) :
    Orderly scope n.letNames h (recordEvaluate settings scope n h).1 := by
  obtain ⟨failure, hfails⟩ | ⟨depth, hrecord⟩ := recordEvaluate_cases settings scope n h
  · rw [hfails]
    exact .nil
  · rw [hrecord]
    exact n.frames (recordWithin_frames depth scope) h

theorem recordRun_orderly (settings : Settings) (scope : ScopeId) (source : String) (h : Heap) :
    ∃ names, Orderly scope names h (recordRun settings scope source h).1 := by
  obtain ⟨failure, hfails⟩ | ⟨p, -, hrun⟩ := recordRun_cases settings scope source h
  · rw [hfails]
    exact ⟨[], .nil⟩
  · rw [hrun]
    exact ⟨_, recordEvaluate_orderly settings scope (.program p) h⟩

/-- A session is orderly from its first source to its last. -/
theorem Session.history_orderly (s : Session) (sources : List (Settings × String)) :
    ∃ names, Orderly s.scope names s.heap (s.history sources) := by
  induction sources generalizing s with
  | nil => exact ⟨[], .nil⟩
  | cons source rest ih =>
      obtain ⟨settings, source⟩ := source
      obtain ⟨first, hfirst⟩ := recordRun_orderly settings s.scope source s.heap
      obtain ⟨others, hrest⟩ := ih (s.run settings source).2
      rw [heap_run] at hrest
      refine ⟨first ++ others, ?_⟩
      rw [history, heap_run]
      exact (hfirst.mono (List.subset_append_left _ _)).append
        (hrest.mono (List.subset_append_right _ _))

/-- After a call has left its scope, nothing touches the scope again. -/
theorem Orderly.untouched {scope : ScopeId} {names : List String} {h : Heap}
    {before after : List Event} {j : ScopeId}
    (ho : Orderly scope names h (before ++ .left j :: after)) (hscope : scope < h.next) :
    (∃ f arguments, .entered j f arguments ∈ before) ∧ ∀ event ∈ after, ¬event.touches j := by
  have hpairwise := (List.pairwise_append.mp (ho.spared hscope)).2.1
  have hafter : ∀ event ∈ after, ¬event.touches j := by
    intro event hmem
    exact (List.pairwise_cons.mp hpairwise).1 event hmem j rfl
  refine ⟨?_, hafter⟩
  obtain ⟨f, arguments, hentered⟩ := ho.left j (List.mem_append_right _ List.mem_cons_self)
  rcases List.mem_append.mp hentered with hbefore | hmem
  · exact ⟨f, arguments, hbefore⟩
  · rw [List.mem_cons] at hmem
    rcases hmem with hmem | hmem
    · cases hmem
    · exact absurd rfl (hafter _ hmem)

/-- A scope that nothing touches stays as it is. -/
theorem replay_untouched {events : List Event} {h : Heap} {j : ScopeId} (hj : j < h.next)
    (huntouched : ∀ event ∈ events, ¬event.touches j) :
    (replay events h).scopes[j]? = h.scopes[j]? := by
  have hs : h.scopes[j]? = some h.scopes[j] := Array.getElem?_eq_getElem hj
  have hkept : ∃ s', (replay events h).scopes[j]? = some s' ∧ h.scopes[j].Keeps [] s' ∧
      (j ≠ j + 1 → s' = h.scopes[j]) :=
    replay_keeps (fun name v hmem => absurd rfl (huntouched _ hmem)) hs
  obtain ⟨s', hs', -, hsame⟩ := hkept
  rw [hs', hs, hsame (Nat.ne_of_lt (Nat.lt_succ_self j))]

/-- An evaluation keeps every scope that was there, and changes in its own scope only names that a
`let` of the phrase binds.  In a session, once a call has returned, its scope is never touched again
and stays as the call has left it. -/
theorem evaluation_keeps_scopes :
    (∀ (settings : Settings) (i : ScopeId) (n : Node) (h : Heap) (j : ScopeId) (s : Scope),
      h.scopes[j]? = some s →
      ∃ s', (evaluate settings i n h).2.scopes[j]? = some s' ∧ s.Keeps n.letNames s' ∧
        (j ≠ i → s' = s)) ∧
    ∀ (builtins : Registry) (sources : List (Settings × String)),
      ((Session.new builtins).runAll sources).2.heap =
        replay ((Session.new builtins).history sources) (Session.new builtins).heap ∧
      ∀ (before after : List Event) (j : ScopeId),
        (Session.new builtins).history sources = before ++ .left j :: after →
        (∃ f arguments, .entered j f arguments ∈ before) ∧
        (∀ event ∈ after, ¬event.touches j) ∧
        ∀ soon later, after = soon ++ later →
          (replay (before ++ .left j :: soon) (Session.new builtins).heap).scopes[j]? =
            (replay before (Session.new builtins).heap).scopes[j]? := by
  refine ⟨?_, ?_⟩
  · intro settings i n h j s hs
    rw [evaluate_eq]
    exact (recordEvaluate_orderly settings i n h).keeps hs
  · intro builtins sources
    refine ⟨Session.heap_runAll _ sources, ?_⟩
    intro before after j hhistory
    obtain ⟨names, ho⟩ := (Session.new builtins).history_orderly sources
    rw [hhistory] at ho
    obtain ⟨hmade, hafter⟩ := ho.untouched (Nat.lt_succ_self _)
    refine ⟨hmade, hafter, ?_⟩
    rintro soon later rfl
    obtain ⟨f, arguments, hentered⟩ := hmade
    have hnumbered := ((numbered_append before _ _).mp ho.numbered).1
    rw [replay_append, replay_cons]
    refine replay_untouched (hnumbered.entered hentered).2 ?_
    intro event hevent
    exact hafter event (List.mem_append_left _ hevent)

/-- A function that a call has made is called after that call has returned; the scope of the first
call is not touched, though a name of it is bound outside. -/
theorem evaluation_keeps_scopes_counter :
    let sources :=
      [(Settings.unset, "let f = fn(x) \x7b let y = x; fn() \x7b y \x7d \x7d; let g = f(1);"),
        (Settings.unset, "let y = 5; g();")]
    ∃ before after, (Session.new .default).history sources = before ++ .left 1 :: after ∧
      (∃ f arguments, .entered 1 f arguments ∈ before) ∧ ∀ event ∈ after, ¬event.touches 1 := by
  intro sources
  have hleft : Event.left 1 ∈ (Session.new .default).history sources := by
    have hany : ((Session.new .default).history sources).any
        (fun event => match event with
          | .left j => j = 1
          | _ => false) = true := by
      decide +kernel
    obtain ⟨event, hmem, hevent⟩ := List.any_eq_true.mp hany
    cases event with
    | left j =>
        have hj : j = 1 := of_decide_eq_true hevent
        rw [hj] at hmem
        exact hmem
    | _ => cases hevent
  obtain ⟨before, after, hhistory⟩ := List.append_of_mem hleft
  obtain ⟨hmade, hafter, -⟩ :=
    (evaluation_keeps_scopes.2 .default sources).2 before after 1 hhistory
  exact ⟨before, after, hhistory, hmade, hafter⟩

end Runs

end Scriptlet
