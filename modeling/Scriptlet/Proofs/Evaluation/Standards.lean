import Scriptlet.Proofs.Evaluation.Returns

/-!
# Standards

What the values that programs keep consist of, and what a history looks like once an error has come up.

**Keeping.**  A value is kept when a name is bound to it, when it is passed as an argument, put into an
array or returned.  A *standard* says what such values may consist of, at any depth: which integers may
appear, and whether a returned value may be kept in its turn.  Errors are never kept.

**Code** obeys a standard if its literals are allowed and if, where returned values may not be kept, no
conditional with a `return` in it stands where its value is kept.

**Values** are fit if all their parts are allowed.  Operators and built-in functions come to a fit value
or to an error, if the length of what is passed to `len` is an integer that the standard allows.

**Events** meet a standard if what they keep is fit.  After an error has come up, a history unwinds: its
events only hand the error on.

**Result.**  `fits_replay`: proper events, which meet the standard or come to an error, keep the heap fit.
-/

namespace Scriptlet

/-- What the values that programs keep may consist of. -/
structure Standard where
  /-- The integers that may appear. -/
  integer : Int → Bool
  /-- Those of the language are among them. -/
  integer_of_inRange : ∀ n, inRange n = true → integer n = true
  /-- Whether what a `return` carries may be kept. -/
  returned : Bool

section Code

mutual

/-- Whether an expression obeys a standard. -/
def Expr.obeys (std : Standard) : Expr → Bool
  | .integer value => std.integer value
  | .unary _ right => right.obeys std
  | .binary left _ right => left.obeys std && right.obeys std
  | .conditional condition consequence alternative =>
      condition.obeys std && Stmt.obeysAll std consequence &&
        (match alternative with
          | none => true
          | some block => Stmt.obeysAll std block)
  | .function _ body => Stmt.obeysAll std body
  | .call callee arguments => callee.obeys std && Expr.obeysAll std arguments
  | .array elements => Expr.obeysAll std elements
  | .index left subscript => left.obeys std && subscript.obeys std
  | _ => true

/-- Whether a statement obeys a standard: what it binds or returns is kept. -/
def Stmt.obeys (std : Standard) : Stmt → Bool
  | .bind _ value => (std.returned || !value.mayReturn) && value.obeys std
  | .ret value => (std.returned || !value.mayReturn) && value.obeys std
  | .expr expression => expression.obeys std
  | .block body => Stmt.obeysAll std body

/-- Whether the statements of a block obey a standard. -/
def Stmt.obeysAll (std : Standard) : List Stmt → Bool
  | [] => true
  | s :: rest => s.obeys std && Stmt.obeysAll std rest

/-- Whether expressions whose values are kept obey a standard. -/
def Expr.obeysAll (std : Standard) : List Expr → Bool
  | [] => true
  | e :: rest => (std.returned || !e.mayReturn) && e.obeys std && Expr.obeysAll std rest

end

/-- Whether a phrase obeys a standard. -/
def Node.obeys (std : Standard) : Node → Bool
  | program p => Stmt.obeysAll std p.statements
  | statement s => s.obeys std
  | expression e => e.obeys std

/-- Whether a phrase may come to a returned value that it does not keep. -/
def Node.mayReturn : Node → Bool
  | program _ => false
  | statement s => s.returns
  | expression e => e.mayReturn

/-- Whether evaluating an expression is evaluating others first. -/
def Expr.isCompound : Expr → Bool
  | .unary _ _ => true
  | .binary _ _ _ => true
  | .conditional _ _ _ => true
  | .call _ _ => true
  | .array _ => true
  | .index _ _ => true
  | _ => false

end Code

/-- The length that a call of `len` is about to measure. -/
def Event.length? : Event → Option Nat
  | .calling (.builtin .len) [.string s] => some s.length
  | .calling (.builtin .len) [.array items] => some items.length
  | _ => none

/-- Whether the length of what is passed to `len` is an integer that the standard allows. -/
def Event.measured (std : Standard) (event : Event) : Bool :=
  event.length?.all fun n => std.integer n

section Values

variable {std : Standard}

namespace Value

/-- Whether a part may be in a value that is kept. -/
def allowed (std : Standard) : Value → Bool
  | error _ => false
  | integer n => std.integer n
  | returned _ _ => std.returned
  | function f => Stmt.obeysAll std f.body
  | _ => true

/-- Every part of the value is allowed. -/
def Fits (std : Standard) (v : Value) : Prop :=
  ∀ w ∈ v.parts, w.allowed std = true

/-- The value is fit, or, where that may be, a returned one with a fit content. -/
def Passes (std : Standard) (may : Bool) (v : Value) : Prop :=
  v.Fits std ∨ (may = true ∧ ∃ serial w, v = returned serial w ∧ w.Fits std)

/-- What an operation comes to. -/
def FitOrError (std : Standard) (v : Value) : Prop :=
  (∃ message, v = error message) ∨ v.Fits std

theorem fits_plain {v : Value} (hparts : v.parts = [v]) (hv : v.allowed std = true) :
    v.Fits std := by
  intro w hw
  rw [hparts, List.mem_singleton] at hw
  rw [hw]
  exact hv

theorem fits_array {items : List Value} (h : ∀ v ∈ items, v.Fits std) : (array items).Fits std := by
  intro w hw
  rcases mem_parts_array.mp hw with rfl | ⟨v, hv, hw⟩
  · rfl
  · exact h v hv w hw

theorem fits_returned (hstd : std.returned = true) {v : Value} (hv : v.Fits std) (serial : Nat) :
    (returned serial v).Fits std := by
  intro w hw
  rcases List.mem_cons.mp hw with rfl | hw
  · exact hstd
  · exact hv w hw

theorem Fits.item {items : List Value} (h : (array items).Fits std) {v : Value} (hv : v ∈ items) :
    v.Fits std := by
  intro w hw
  exact h w (mem_parts_array.mpr (Or.inr ⟨v, hv, hw⟩))

theorem Fits.isError_eq_false {v : Value} (h : v.Fits std) : v.isError = false := by
  cases v with
  | error message => exact Bool.noConfusion (h _ (self_mem_parts _))
  | _ => rfl

theorem Fits.unwrapped {v : Value} (h : v.Fits std) : v.unwrapped.Fits std := by
  cases v with
  | returned serial value =>
      intro w hw
      exact h w (List.mem_cons_of_mem _ hw)
  | _ => exact h

theorem Passes.mono {may may' : Bool} {v : Value} (h : v.Passes std may)
    (hmay : may = true → may' = true) : v.Passes std may' := by
  rcases h with h | ⟨htrue, h⟩
  · exact Or.inl h
  · exact Or.inr ⟨hmay htrue, h⟩

theorem Passes.isError_eq_false {may : Bool} {v : Value} (h : v.Passes std may) :
    v.isError = false := by
  rcases h with h | ⟨-, serial, w, rfl, -⟩
  · exact h.isError_eq_false
  · rfl

theorem Passes.unwrapped {may : Bool} {v : Value} (h : v.Passes std may) :
    v.unwrapped.Fits std := by
  rcases h with h | ⟨-, serial, w, rfl, hw⟩
  · exact h.unwrapped
  · exact hw

/-- What passes where it may be kept is fit. -/
theorem Passes.fits {may : Bool} {v : Value} (h : v.Passes std may)
    (hmay : (std.returned || !may) = true) : v.Fits std := by
  rcases h with h | ⟨rfl, serial, w, rfl, hw⟩
  · exact h
  · rw [Bool.not_true, Bool.or_false] at hmay
    exact fits_returned hmay hw serial

/-- What does not end a block is fit. -/
theorem Passes.fits_of_not_stops {may : Bool} {v : Value} (h : v.Passes std may)
    (hstops : ¬v.stops = true) : v.Fits std := by
  rcases h with h | ⟨-, serial, w, rfl, -⟩
  · exact h
  · exact absurd rfl hstops

section Operations

theorem fitOrError_error (e : RuntimeError) : e.value.FitOrError std :=
  Or.inl ⟨e.message, rfl⟩

theorem fitOrError_plain {v : Value} (hparts : v.parts = [v]) (hv : v.allowed std = true) :
    v.FitOrError std :=
  Or.inr (fits_plain hparts hv)

theorem fitOrError_checked (n : Int) : (checked n).FitOrError std := by
  unfold checked
  split
  · next hn => exact fitOrError_plain rfl (std.integer_of_inRange n hn)
  · exact fitOrError_error _

theorem fitOrError_applyUnary (op : String) (v : Value) : (applyUnary op v).FitOrError std := by
  unfold applyUnary
  split
  · exact fitOrError_plain rfl rfl
  · exact fitOrError_checked _
  · exact fitOrError_error _

theorem fitOrError_applyInteger (op : String) (a b : Int) :
    (applyInteger op a b).FitOrError std := by
  unfold applyInteger
  split
  · exact fitOrError_checked _
  · exact fitOrError_checked _
  · exact fitOrError_checked _
  · split
    · exact fitOrError_error _
    · exact fitOrError_checked _
  · exact fitOrError_plain rfl rfl
  · exact fitOrError_plain rfl rfl
  · exact fitOrError_plain rfl rfl
  · exact fitOrError_plain rfl rfl
  · exact fitOrError_error _

theorem fitOrError_applyBinary (op : String) (a b : Value) :
    (applyBinary op a b).FitOrError std := by
  unfold applyBinary
  split
  · exact fitOrError_applyInteger op _ _
  · unfold applyString
    split
    · exact fitOrError_plain rfl rfl
    · exact fitOrError_error _
  · split
    · unfold applySame
      split
      · exact fitOrError_plain rfl rfl
      · exact fitOrError_plain rfl rfl
      · exact fitOrError_error _
    · exact fitOrError_error _

theorem fitOrError_applyIndex {may : Bool} {a : Value} (ha : a.Passes std may) (b : Value) :
    (applyIndex a b).FitOrError std := by
  unfold applyIndex
  split
  · next items n =>
      have hitems : (array items).Fits std := ha.fits_of_not_stops (by simp [stops])
      split
      · exact fitOrError_plain rfl rfl
      · rw [List.getD_eq_getElem?_getD]
        cases hitem : items[n.toNat]? with
        | none => exact fitOrError_plain rfl rfl
        | some v => exact Or.inr (hitems.item (List.mem_of_getElem? hitem))
  · exact fitOrError_error _

theorem fitOrError_onArray {b : Builtin} {f : List Value → Value} {v : Value} (hv : v.Fits std)
    (hf : ∀ items, (array items).Fits std → (f items).Fits std) :
    (Builtin.onArray b f v).FitOrError std := by
  unfold Builtin.onArray
  split
  · next items => exact Or.inr (hf items hv)
  · exact fitOrError_error _

/-- A call of a built-in function with fit arguments. -/
theorem fitOrError_call {b : Builtin} {arguments : List Value}
    (harguments : ∀ v ∈ arguments, v.Fits std)
    (hmeasured : ((Event.calling (.builtin b) arguments).measured std) = true) :
    (b.call arguments).FitOrError std := by
  unfold Builtin.call
  split
  · unfold Builtin.length
    split
    · exact fitOrError_plain rfl hmeasured
    · exact fitOrError_plain rfl hmeasured
    · exact fitOrError_error _
  · refine fitOrError_onArray (harguments _ List.mem_cons_self) ?_
    intro items hitems
    cases items with
    | nil => exact fits_plain rfl rfl
    | cons first rest => exact hitems.item List.mem_cons_self
  · refine fitOrError_onArray (harguments _ List.mem_cons_self) ?_
    intro items hitems
    cases items with
    | nil => exact fits_plain rfl rfl
    | cons first rest =>
        rw [List.getLastD_cons]
        exact hitems.item (List.getLastD_mem_cons ..)
  · refine fitOrError_onArray (harguments _ List.mem_cons_self) ?_
    intro items hitems
    split
    · exact fits_plain rfl rfl
    · refine fits_array ?_
      intro v hv
      exact hitems.item (List.mem_of_mem_tail hv)
  · refine fitOrError_onArray (harguments _ List.mem_cons_self) ?_
    intro items hitems
    refine fits_array ?_
    intro v hv
    rcases List.mem_append.mp hv with hv | hv
    · exact hitems.item hv
    · rw [List.mem_singleton] at hv
      rw [hv]
      exact harguments _ (List.mem_cons_of_mem _ List.mem_cons_self)
  · split
    · exact Or.inr (fits_plain rfl rfl)
    · exact fitOrError_error _
  · exact fitOrError_error _

end Operations

end Value

end Values

namespace Event

/-- The event says that something has come to the value. -/
def Yields (v : Value) : Event → Prop
  | closed _ _ w => w = v
  | called _ w => w = v
  | yielded _ _ w => w = v
  | _ => False

/-- The event hands an error on: something that was begun before ends with it. -/
def HandsOn (message : String) : Event → Prop
  | closed _ _ v => v = .error message
  | left _ => True
  | called _ v => v = .error message
  | yielded _ e v => e.isCompound = true ∧ v = .error message
  | _ => False

/-- Every value the event is about is fit where it is kept, and passes where it is not. -/
def Meets (std : Standard) : Event → Prop
  | numbered => True
  | bound _ _ v => v.Fits std
  | calling f arguments => f.Passes std true ∧ ∀ v ∈ arguments, v.Fits std
  | entered _ f arguments => (Value.function f).Fits std ∧ ∀ v ∈ arguments, v.Fits std
  | closed _ _ v => v.Passes std true
  | left _ => True
  | called _ v => v.Fits std
  | yielded _ e v => v.Passes std e.mayReturn

/-- The event meets the standard, or an error comes up or is handed on. -/
def Proper (std : Standard) (event : Event) : Prop :=
  event.Meets std ∨ ∃ message, event.Yields (.error message) ∨ event.HandsOn message

theorem Meets.not_yields {std : Standard} {event : Event} (h : event.Meets std) (message : String) :
    ¬event.Yields (.error message) := by
  intro hyields
  cases event with
  | closed scope body v => exact Bool.noConfusion (hyields ▸ h.isError_eq_false)
  | called f v => exact Bool.noConfusion (hyields ▸ h.isError_eq_false)
  | yielded scope e v => exact Bool.noConfusion (hyields ▸ h.isError_eq_false)
  | _ => exact hyields

/-- What hands an error on has come to it, unless it leaves a scope. -/
theorem HandsOn.yields {event : Event} {message : String} (h : event.HandsOn message) :
    event.Yields (.error message) ∨ ∃ scope, event = .left scope := by
  cases event with
  | closed scope body v => exact Or.inl h
  | left scope => exact Or.inr ⟨scope, rfl⟩
  | called f v => exact Or.inl h
  | yielded scope e v => exact Or.inl h.2
  | _ => exact h.elim

/-- What holds of events that meet the standard, of those in which an error is come to and of leaving a
scope holds of every proper event. -/
theorem Proper.elim {std : Standard} {P : Event → Prop} {event : Event} (h : event.Proper std)
    (hmeets : event.Meets std → P event)
    (hyields : ∀ message, event.Yields (.error message) → P event)
    (hleft : ∀ scope, P (left scope)) : P event := by
  rcases h with h | ⟨message, h | h⟩
  · exact hmeets h
  · exact hyields message h
  · rcases h.yields with h | ⟨scope, rfl⟩
    · exact hyields message h
    · exact hleft scope

/-- If every integer is allowed, then so is every length. -/
theorem measured_eq_true {std : Standard} (hstd : ∀ n, std.integer n = true) (event : Event) :
    event.measured std = true := by
  rw [measured]
  cases event.length? with
  | none => rfl
  | some n => exact hstd n

end Event

/-- After an error has come up, nothing happens but that it is handed on. -/
def Unwinds (message : String) : List Event → Prop
  | [] => True
  | first :: rest =>
      (first.Yields (.error message) ∨ first.HandsOn message) ∧
        ∀ event ∈ rest, event.HandsOn message

theorem Unwinds.append {message : String} {events more : List Event} (h : Unwinds message events)
    (hmore : ∀ event ∈ more, event.HandsOn message) : Unwinds message (events ++ more) := by
  cases events with
  | nil =>
      cases more with
      | nil => trivial
      | cons first rest =>
          obtain ⟨hfirst, hrest⟩ := List.forall_mem_cons.mp hmore
          exact ⟨Or.inr hfirst, hrest⟩
  | cons first rest =>
      refine ⟨h.1, ?_⟩
      intro event hmem
      rcases List.mem_append.mp hmem with hmem | hmem
      · exact h.2 event hmem
      · exact hmore event hmem

/-- Every value the heap holds is fit. -/
def Heap.Fits (std : Standard) (h : Heap) : Prop :=
  ∀ v, h.Holds v → v.Fits std

section Heaps

variable {std : Standard} {h : Heap}

/-- An event that says what was come to leaves the heap alone. -/
theorem Event.Yields.apply_eq {v : Value} {event : Event} (hevent : event.Yields v) :
    event.apply h = h := by
  cases event with
  | bound scope name w => exact hevent.elim
  | entered scope f arguments => exact hevent.elim
  | numbered => exact hevent.elim
  | _ => rfl

theorem Event.Meets.fits_apply {event : Event} (hevent : event.Meets std) (hh : h.Fits std) :
    (event.apply h).Fits std := by
  cases event with
  | bound scope name v =>
      intro w hw
      rcases Heap.holds_bind hw with rfl | hw
      · exact hevent
      · exact hh w hw
  | entered scope f arguments =>
      intro w hw
      rcases Heap.holds_addInside hw with hw | rfl | hw
      · exact hevent.2 w hw
      · exact Value.fits_plain rfl rfl
      · exact hh w hw
  | _ => exact hh

theorem Event.Proper.fits_apply {event : Event} (hevent : event.Proper std) (hh : h.Fits std) :
    (event.apply h).Fits std := by
  refine hevent.elim (P := fun event => (event.apply h).Fits std) ?_ ?_ fun _ => hh
  · intro hmeets
    exact hmeets.fits_apply hh
  · intro message hyields
    rw [hyields.apply_eq]
    exact hh

theorem fits_replay {events : List Event} (hevents : ∀ event ∈ events, event.Proper std)
    (hh : h.Fits std) : (replay events h).Fits std :=
  replay_preserves (fun _ _ => Event.Proper.fits_apply) hevents hh

/-- So is the heap at every moment of a history. -/
theorem fits_replay_before {events before after : List Event}
    (hevents : ∀ event ∈ events, event.Proper std) (hh : h.Fits std)
    (hsplit : events = before ++ after) : (replay before h).Fits std := by
  rw [hsplit] at hevents
  exact fits_replay (List.forall_mem_append.mp hevents).1 hh

end Heaps

end Scriptlet
