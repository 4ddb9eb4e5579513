import Scriptlet.Operation
import Scriptlet.Scope

/-!
# What values and heaps contain

**Parts.**  The parts of a value are the value itself, the items of an array and what a `return`
carries, at any depth.  An operation makes no functions and no `return`s: every part of its result is a
part of an operand or plain data.  So a property of all functions in a value (`Value.Functions`) is
kept by every operation, and by a function of the host if that makes no functions either
(`Natives.MakesNoFunctions`).

**Heaps.**  A heap holds the values that its scopes bind.  Binding a name adds one value, and making a
scope adds those bound in it; a name that is looked up yields a value the heap holds, or a built-in
function.
-/

namespace Scriptlet

namespace Value

mutual

/-- The value and what it contains, at any depth. -/
def parts : Value → List Value
  | array items => array items :: partsAmong items
  | returned serial value => returned serial value :: parts value
  | value => [value]

/-- What several values contain, themselves included. -/
def partsAmong : List Value → List Value
  | [] => []
  | v :: rest => parts v ++ partsAmong rest

end

theorem self_mem_parts (v : Value) : v ∈ v.parts := by
  cases v with
  | array items => exact List.mem_cons_self
  | returned serial value => exact List.mem_cons_self
  | _ => exact List.mem_singleton_self _

theorem mem_partsAmong {w : Value} {vs : List Value} :
    w ∈ partsAmong vs ↔ ∃ v ∈ vs, w ∈ v.parts := by
  induction vs with
  | nil => simp [partsAmong]
  | cons v rest ih => simp [partsAmong, ih]

theorem mem_parts_array {w : Value} {items : List Value} :
    w ∈ (array items).parts ↔ w = array items ∨ ∃ v ∈ items, w ∈ v.parts := by
  rw [parts, List.mem_cons, mem_partsAmong]

/-- A value that is neither a function nor what a `return` carries. -/
def isData : Value → Bool
  | function _ => false
  | builtin _ => false
  | returned _ _ => false
  | _ => true

/-- Every part of the value is a part of one of the others, or plain data. -/
def MadeOf (others : List Value) (v : Value) : Prop :=
  ∀ w ∈ v.parts, (∃ other ∈ others, w ∈ other.parts) ∨ w.isData = true

section Functions

variable {F : Closure → Prop} {v : Value}

/-- Every function in the value, at any depth, has the property. -/
def Functions (F : Closure → Prop) (v : Value) : Prop :=
  ∀ f, function f ∈ v.parts → F f

theorem Functions.mono {G : Closure → Prop} (hv : v.Functions F) (h : ∀ f, F f → G f) :
    v.Functions G :=
  fun f hf => h f (hv f hf)

theorem functions_plain (hparts : v.parts = [v]) (hdata : v.isData = true) : v.Functions F := by
  intro f hf
  rw [hparts, List.mem_singleton] at hf
  rw [← hf] at hdata
  cases hdata

theorem functions_builtin (b : Builtin) : (builtin b).Functions F := by
  intro f hf
  cases List.mem_singleton.mp hf

theorem functions_function {f : Closure} (hf : F f) : (function f).Functions F := by
  intro g hg
  cases List.mem_singleton.mp hg
  exact hf

theorem Functions.closure {f : Closure} (hf : (function f).Functions F) : F f :=
  hf f (self_mem_parts _)

theorem functions_array {items : List Value} (h : ∀ v ∈ items, v.Functions F) :
    (array items).Functions F := by
  intro f hf
  rcases mem_parts_array.mp hf with hf | ⟨v, hv, hf⟩
  · cases hf
  · exact h v hv f hf

theorem functions_returned (hv : v.Functions F) (serial : Nat) : (returned serial v).Functions F := by
  intro f hf
  rw [parts, List.mem_cons] at hf
  rcases hf with hf | hf
  · cases hf
  · exact hv f hf

theorem Functions.unwrapped (hv : v.Functions F) : v.unwrapped.Functions F := by
  cases v with
  | returned serial w =>
      intro f hf
      exact hv f (List.mem_cons_of_mem _ hf)
  | _ => exact hv

theorem MadeOf.functions {others : List Value} (hv : MadeOf others v)
    (h : ∀ other ∈ others, other.Functions F) : v.Functions F := by
  intro f hf
  rcases hv _ hf with ⟨other, hmem, hf⟩ | hdata
  · exact h other hmem f hf
  · cases hdata

end Functions

end Value

namespace Value

section Operations

variable {others : List Value}

/-- A value without inner parts that is plain data. -/
theorem madeOf_plain {v : Value} (hparts : v.parts = [v]) (hdata : v.isData = true) :
    MadeOf others v := by
  intro w hw
  rw [hparts, List.mem_singleton] at hw
  rw [hw]
  exact Or.inr hdata

theorem madeOf_self {v : Value} (hv : v ∈ others) : MadeOf others v :=
  fun _ hw => Or.inl ⟨v, hv, hw⟩

/-- An item of an array that is there. -/
theorem madeOf_item {items : List Value} {v : Value} (harray : array items ∈ others)
    (hv : v ∈ items) : MadeOf others v := by
  intro w hw
  exact Or.inl ⟨array items, harray, mem_parts_array.mpr (Or.inr ⟨v, hv, hw⟩)⟩

theorem madeOf_array {items : List Value} (h : ∀ v ∈ items, MadeOf others v) :
    MadeOf others (array items) := by
  intro w hw
  rcases mem_parts_array.mp hw with rfl | ⟨v, hv, hw⟩
  · exact Or.inr rfl
  · exact h v hv w hw

theorem madeOf_checked (n : Int) : MadeOf others (checked n) := by
  unfold checked
  split
  · exact madeOf_plain rfl rfl
  · exact madeOf_plain rfl rfl

theorem madeOf_applyUnary (op : String) (v : Value) : MadeOf others (applyUnary op v) := by
  unfold applyUnary
  split
  · exact madeOf_plain rfl rfl
  · exact madeOf_checked _
  · exact madeOf_plain rfl rfl

theorem madeOf_applyInteger (op : String) (a b : Int) : MadeOf others (applyInteger op a b) := by
  unfold applyInteger
  split
  · exact madeOf_checked _
  · exact madeOf_checked _
  · exact madeOf_checked _
  · split
    · exact madeOf_plain rfl rfl
    · exact madeOf_checked _
  · exact madeOf_plain rfl rfl
  · exact madeOf_plain rfl rfl
  · exact madeOf_plain rfl rfl
  · exact madeOf_plain rfl rfl
  · exact madeOf_plain rfl rfl

theorem madeOf_applyBinary (op : String) (a b : Value) : MadeOf others (applyBinary op a b) := by
  unfold applyBinary
  split
  · exact madeOf_applyInteger op _ _
  · unfold applyString
    split
    · exact madeOf_plain rfl rfl
    · exact madeOf_plain rfl rfl
  · split
    · unfold applySame
      split
      · exact madeOf_plain rfl rfl
      · exact madeOf_plain rfl rfl
      · exact madeOf_plain rfl rfl
    · exact madeOf_plain rfl rfl

theorem madeOf_applyIndex (a b : Value) : MadeOf [a] (applyIndex a b) := by
  unfold applyIndex
  split
  · next items n =>
      split
      · exact madeOf_plain rfl rfl
      · rw [List.getD_eq_getElem?_getD]
        cases hitem : items[n.toNat]? with
        | none => exact madeOf_plain rfl rfl
        | some v => exact madeOf_item List.mem_cons_self (List.mem_of_getElem? hitem)
  · exact madeOf_plain rfl rfl

theorem madeOf_onArray {b : Builtin} {f : List Value → Value} {v : Value} (hv : v ∈ others)
    (hf : ∀ items, array items ∈ others → MadeOf others (f items)) :
    MadeOf others (Builtin.onArray b f v) := by
  unfold Builtin.onArray
  split
  · next items => exact hf items hv
  · exact madeOf_plain rfl rfl

/-- A call of a built-in function makes its result of the arguments, unless it is the host that answers. -/
theorem call_cases [Natives] (b : Builtin) (arguments : List Value) :
    MadeOf arguments (b.call arguments) ∨
      ∃ number, b.call arguments = Natives.answer number arguments := by
  unfold Builtin.call
  split
  · refine Or.inl ?_
    unfold Builtin.length
    split
    · exact madeOf_plain rfl rfl
    · exact madeOf_plain rfl rfl
    · exact madeOf_plain rfl rfl
  · refine Or.inl (madeOf_onArray List.mem_cons_self ?_)
    intro items harray
    cases items with
    | nil => exact madeOf_plain rfl rfl
    | cons first rest => exact madeOf_item harray List.mem_cons_self
  · refine Or.inl (madeOf_onArray List.mem_cons_self ?_)
    intro items harray
    cases items with
    | nil => exact madeOf_plain rfl rfl
    | cons first rest =>
        rw [List.getLastD_cons]
        exact madeOf_item harray (List.getLastD_mem_cons ..)
  · refine Or.inl (madeOf_onArray List.mem_cons_self ?_)
    intro items harray
    split
    · exact madeOf_plain rfl rfl
    · refine madeOf_array ?_
      intro v hv
      exact madeOf_item harray (List.mem_of_mem_tail hv)
  · refine Or.inl (madeOf_onArray List.mem_cons_self ?_)
    intro items harray
    refine madeOf_array ?_
    intro v hv
    rcases List.mem_append.mp hv with hv | hv
    · exact madeOf_item harray hv
    · rw [List.mem_singleton] at hv
      rw [hv]
      exact madeOf_self (List.mem_cons_of_mem _ List.mem_cons_self)
  · split
    · exact Or.inr ⟨_, rfl⟩
    · exact Or.inl (madeOf_plain rfl rfl)
  · exact Or.inl (madeOf_plain rfl rfl)

/-- Where the host adds no functions, every call makes its result of the arguments. -/
theorem madeOf_call (b : Builtin) (arguments : List Value) :
    MadeOf arguments (b.call arguments) := by
  rcases call_cases b arguments with hmade | ⟨_, hnull⟩
  · exact hmade
  · rw [hnull]
    exact madeOf_plain rfl rfl

end Operations

end Value

namespace Heap

@[simp] theorem next_add (h : Heap) (s : Scope) : (h.add s).next = h.next + 1 := by
  simp [next, add]

@[simp] theorem next_bind (h : Heap) (scope : ScopeId) (name : String) (v : Value) :
    (h.bind scope name v).next = h.next := by
  simp [next, bind]

section Scopes

variable {h : Heap} {scope j : ScopeId} {s : Scope}

theorem scopes_bind_self (hs : h.scopes[scope]? = some s) (name : String) (v : Value) :
    (h.bind scope name v).scopes[scope]? =
      some { s with bindings := Table.put name v s.bindings } := by
  simp [bind, Array.getElem?_modify, hs]

theorem scopes_bind_of_ne (hne : scope ≠ j) (name : String) (v : Value) :
    (h.bind scope name v).scopes[j]? = h.scopes[j]? := by
  simp [bind, Array.getElem?_modify, hne]

theorem scopes_of_add {t : Scope} (hs : (h.add t).scopes[j]? = some s) :
    j = h.next ∧ s = t ∨ h.scopes[j]? = some s := by
  rw [add, Array.getElem?_push] at hs
  split at hs
  · next hj =>
      cases hs
      exact .inl ⟨hj, rfl⟩
  · exact .inr hs

theorem scopes_add (hs : h.scopes[j]? = some s) (t : Scope) : (h.add t).scopes[j]? = some s := by
  obtain ⟨hlt, -⟩ := Array.getElem?_eq_some_iff.mp hs
  rw [add, Array.getElem?_push_lt hlt, ← hs, Array.getElem?_eq_getElem hlt]

end Scopes

/-- Some scope binds a name to the value. -/
def Holds (h : Heap) (v : Value) : Prop :=
  ∃ (j : ScopeId) (s : Scope), h.scopes[j]? = some s ∧ ∃ name, (name, v) ∈ s.bindings

end Heap

theorem Table.mem_put {κ α : Type} [DecidableEq κ] {key k : κ} {value a : α} {t : Table κ α}
    (h : (k, a) ∈ Table.put key value t) : a = value ∨ (k, a) ∈ t := by
  induction t with
  | nil =>
      rw [put, List.mem_singleton] at h
      exact Or.inl (congrArg Prod.snd h)
  | cons p rest ih =>
      obtain ⟨k', a'⟩ := p
      rw [put] at h
      by_cases hk : k' = key
      · rw [if_pos hk] at h
        rcases List.mem_cons.mp h with h | h
        · exact Or.inl (congrArg Prod.snd h)
        · exact Or.inr (List.mem_cons_of_mem _ h)
      · rw [if_neg hk] at h
        rcases List.mem_cons.mp h with h | h
        · exact Or.inr (h ▸ List.mem_cons_self)
        · rcases ih h with h | h
          · exact Or.inl h
          · exact Or.inr (List.mem_cons_of_mem _ h)

theorem Table.mem_of_get? {κ α : Type} [DecidableEq κ] {key : κ} {value : α} {t : Table κ α}
    (h : Table.get? key t = some value) : (key, value) ∈ t := by
  induction t with
  | nil => cases h
  | cons p rest ih =>
      obtain ⟨k, a⟩ := p
      rw [get?] at h
      by_cases hk : k = key
      · rw [if_pos hk] at h
        cases h
        rw [hk]
        exact List.mem_cons_self
      · rw [if_neg hk] at h
        exact List.mem_cons_of_mem _ (ih h)

/-- A parameter is bound to an argument, or to null. -/
theorem mem_bindParameters {name : String} {v : Value} {parameters : List String}
    {arguments : List Value} {t : Table String Value}
    (h : (name, v) ∈ bindParameters t parameters arguments) :
    (name, v) ∈ t ∨ v ∈ arguments ∨ v = .null := by
  induction parameters generalizing t arguments with
  | nil => exact Or.inl h
  | cons parameter parameters ih =>
      cases arguments with
      | nil =>
          rcases ih h with h | h | h
          · rcases Table.mem_put h with h | h
            · exact Or.inr (Or.inr h)
            · exact Or.inl h
          · cases h
          · exact Or.inr (Or.inr h)
      | cons argument arguments =>
          rcases ih h with h | h | h
          · rcases Table.mem_put h with h | h
            · exact Or.inr (Or.inl (h ▸ List.mem_cons_self))
            · exact Or.inl h
          · exact Or.inr (Or.inl (List.mem_cons_of_mem _ h))
          · exact Or.inr (Or.inr h)

namespace Heap

variable {h : Heap} {scope : ScopeId} {name : String} {v w : Value}

/-- Binding a name adds its value to one scope, and keeps the outer scope of every scope and its built-in
functions. -/
theorem scopes_of_bind {j : ScopeId} {s : Scope}
    (hs : (h.bind scope name v).scopes[j]? = some s) :
    ∃ t, h.scopes[j]? = some t ∧ s.outer = t.outer ∧ s.builtins = t.builtins ∧
      ∀ key w, (key, w) ∈ s.bindings → w = v ∨ (key, w) ∈ t.bindings := by
  by_cases hne : scope = j
  · subst hne
    cases hold : h.scopes[scope]? with
    | none => simp [bind, Array.getElem?_modify, hold] at hs
    | some t =>
        rw [scopes_bind_self hold] at hs
        cases hs
        exact ⟨t, rfl, rfl, rfl, fun key w hw => Table.mem_put hw⟩
  · rw [scopes_bind_of_ne hne] at hs
    exact ⟨s, hs, rfl, rfl, fun key w hw => Or.inr hw⟩

theorem holds_bind (hw : (h.bind scope name v).Holds w) : w = v ∨ h.Holds w := by
  obtain ⟨j, s, hs, key, hkey⟩ := hw
  obtain ⟨t, ht, -, -, hbindings⟩ := scopes_of_bind hs
  rcases hbindings key w hkey with hw | hw
  · exact Or.inl hw
  · exact Or.inr ⟨j, t, ht, key, hw⟩

theorem holds_add {s : Scope} (hw : (h.add s).Holds w) :
    (∃ name, (name, w) ∈ s.bindings) ∨ h.Holds w := by
  obtain ⟨j, t, ht, key, hkey⟩ := hw
  rcases scopes_of_add ht with ⟨-, rfl⟩ | ht
  · exact Or.inl ⟨key, hkey⟩
  · exact Or.inr ⟨j, t, ht, key, hkey⟩

/-- The scope of a call holds the arguments, and null for those that are missing. -/
theorem holds_addInside {outer : ScopeId} {parameters : List String} {arguments : List Value}
    (hw : (h.addInside outer (bindParameters [] parameters arguments)).Holds w) :
    w ∈ arguments ∨ w = .null ∨ h.Holds w := by
  rcases holds_add hw with ⟨key, hkey⟩ | hw
  · rcases mem_bindParameters hkey with hmem | hmem | hmem
    · cases hmem
    · exact Or.inl hmem
    · exact Or.inr (Or.inl hmem)
  · exact Or.inr (Or.inr hw)

theorem mem_chain {s : Scope} (hs : s ∈ h.chain scope) : ∃ j : ScopeId, h.scopes[j]? = some s := by
  fun_induction chain h scope with
  | case1 => cases hs
  | case2 scope t ht hroot =>
      rw [List.mem_singleton] at hs
      exact ⟨scope, hs ▸ ht⟩
  | case3 scope t ht outer houter hlt ih =>
      rcases List.mem_cons.mp hs with hs | hs
      · exact ⟨scope, hs ▸ ht⟩
      · exact ih hs
  | case4 scope t ht outer houter hle =>
      rw [List.mem_singleton] at hs
      exact ⟨scope, hs ▸ ht⟩

/-- A name means a value that the heap holds, or a built-in function. -/
theorem holds_resolve (hv : h.resolve scope name = some v) :
    h.Holds v ∨ ∃ b, v = .builtin b := by
  rw [resolve, Option.or_eq_some_iff] at hv
  rcases hv with hv | ⟨-, hv⟩
  · rw [lookup, List.findSome?_eq_some_iff] at hv
    obtain ⟨_, s, _, hchain, hget, -⟩ := hv
    obtain ⟨j, hj⟩ := mem_chain (hchain ▸ List.mem_append_right _ List.mem_cons_self)
    exact Or.inl ⟨j, s, hj, name, Table.mem_of_get? hget⟩
  · obtain ⟨b, -, rfl⟩ := Option.map_eq_some_iff.mp hv
    exact Or.inr ⟨b, rfl⟩

end Heap

end Scriptlet
