import Scriptlet.Table
import Scriptlet.Value

/-!
# Scopes

Names are bound in scopes, and scopes enclose one another.

**The heap** holds every scope ever made, numbered in the order of their making, and counts the
objects that have an identity.  A scope knows its outer scope, which is older than itself, and the
built-in functions, which it takes over from its outer scope.

**Binding** is always local: it shadows what outer scopes bind and never changes it.

**Looking up** goes through the chain of scopes outward and takes the first binding.  A program nests its
functions, and so its scopes, only so deep as it could be read; where scopes are made one by one, their
chain may be longer than the stack of the host allows for.
-/

namespace Scriptlet

/-- The built-in functions that a program can name. -/
structure Registry where
  entries : Table String Builtin
  deriving DecidableEq

namespace Registry

/-- No functions. -/
def none : Registry := ⟨[]⟩

/-- All functions, under their own names. -/
def default : Registry := ⟨Builtin.all.map fun b => (b.name, b)⟩

/-- The function of a given name. -/
def get? (r : Registry) (name : String) : Option Builtin :=
  Table.get? name r.entries

/-- Whether there is a function of a given name. -/
def contains (r : Registry) (name : String) : Bool :=
  (r.get? name).isSome

/-- The number of functions. -/
def size (r : Registry) : Nat :=
  r.entries.length

/-- The names, in code point order. -/
def sortedNames (r : Registry) : List String :=
  (Table.keys r.entries).mergeSort (fun a b => decide (a ≤ b))

end Registry

/-- A scope. -/
structure Scope where
  bindings : Table String Value
  outer : Option ScopeId
  builtins : Registry

/-- Its own bindings with the texts of the values, in code point order of the names. -/
def Scope.listing (s : Scope) : List (String × String) :=
  (s.bindings.map fun b => (b.1, b.2.display)).mergeSort (fun a b => decide (a.1 ≤ b.1))

/-- All scopes, and the number of objects made so far. -/
structure Heap where
  scopes : Array Scope
  serial : Nat

namespace Heap

/-- Nothing yet. -/
def empty : Heap := ⟨#[], 0⟩

/-- Makes a scope; its number is the number of scopes before it. -/
def add (h : Heap) (s : Scope) : Heap :=
  { h with scopes := h.scopes.push s }

/-- The number the next scope will have. -/
def next (h : Heap) : ScopeId :=
  h.scopes.size

/-- Makes a scope that nothing encloses. -/
def addRoot (h : Heap) (builtins : Registry) : Heap :=
  h.add ⟨[], none, builtins⟩

/-- The built-in functions of a scope. -/
def builtins (h : Heap) (scope : ScopeId) : Registry :=
  match h.scopes[scope]? with
  | none => .none
  | some s => s.builtins

/-- Makes a scope inside another, with bindings. -/
def addInside (h : Heap) (outer : ScopeId) (bindings : Table String Value) : Heap :=
  h.add ⟨bindings, some outer, h.builtins outer⟩

/-- Binds a name in a scope. -/
def bind (h : Heap) (scope : ScopeId) (name : String) (value : Value) : Heap :=
  { h with scopes :=
      h.scopes.modify scope fun s => { s with bindings := Table.put name value s.bindings } }

/-- A scope and those around it, from the inside out. -/
def chain (h : Heap) (scope : ScopeId) : List Scope :=
  match h.scopes[scope]? with
  | none => []
  | some s =>
      match s.outer with
      | none => [s]
      | some outer => if _h : outer < scope then s :: h.chain outer else [s]
termination_by scope

/-- The value of a name: that of the innermost binding. -/
def lookup (h : Heap) (scope : ScopeId) (name : String) : Option Value :=
  (h.chain scope).findSome? fun s => Table.get? name s.bindings

/-- The value of a name, as far as there are frames to look for it: every scope on the way takes one. -/
def lookupWithin (h : Heap) (name : String) : Nat → ScopeId → Bounded (Option Value)
  | 0, _ => .error .stackFull
  | frames + 1, scope =>
      match h.scopes[scope]? with
      | none => .ok none
      | some s =>
          match Table.get? name s.bindings, s.outer with
          | some v, _ => .ok (some v)
          | none, none => .ok none
          | none, some outer => h.lookupWithin name frames outer

/-- The meaning of a name: a binding, or else a built-in function. -/
def resolve (h : Heap) (scope : ScopeId) (name : String) : Option Value :=
  (h.lookup scope name).or (((h.builtins scope).get? name).map .builtin)

/-- The bindings of a scope as they are shown. -/
def listing (h : Heap) (scope : ScopeId) : List (String × String) :=
  match h.scopes[scope]? with
  | none => []
  | some s => s.listing

end Heap

/-- Arguments bound to parameters in order: a missing argument is null, one too many is dropped, and
of two parameters of one name the later counts. -/
def bindParameters (t : Table String Value) : List String → List Value → Table String Value
  | [], _ => t
  | name :: names, [] => bindParameters (Table.put name .null t) names []
  | name :: names, v :: vs => bindParameters (Table.put name v t) names vs

end Scriptlet
