import Scriptlet.Proofs.Evaluation.Contents
import Scriptlet.Settings

/-!
# Looking names up

What a look-up finds, told from what was done to the scopes and not from what they hold.

**Histories.**  A history of type `Growth n` has led from one root to `n` scopes.  It makes scopes inside
others and binds names, in any order over the scopes.  What it does, it does to a scope that exists by then;
so a history that could not have happened cannot be written down.

**Scopes that change.**  A scope is shared by those inside it, which see whatever is bound in it after they
were made.  A name may be bound anew in a scope, and an inner binding may come to hide an outer one at any
time.

**Room.**  A look-up takes a frame of the host for every scope it goes through.  A history may put scopes
into each other without end, so that there are scopes from which a look-up finds the stack full.  With so
many frames it sees so many scopes of the way outward, and no others.

**The invariant.**  Every scope is inside the one it was made in, and binds the names that were bound in it
to what they were bound to last (`Growth.scopes_heap`).

**Results.**
* `Heap.lookup_root`, `Heap.lookup_inside`: a look-up one scope at a time.
* `Growth.lookup_heap`: a look-up that nothing stops finds the last value in the nearest scope that has one.
* `Growth.lookupWithin_heap`: a look-up with so many frames.
* `Growth.lookupWithin_nested`: scopes each of which is inside the one before.
* `lookups_follow_history`: what a look-up finds, and which look-ups a new binding changes.
-/

namespace Scriptlet

namespace Heap

variable {h : Heap} {i outer : ScopeId} {s : Scope}

/-- From a scope that is inside no other, only its own bindings are found. -/
theorem lookup_root (hs : h.scopes[i]? = some s) (houter : s.outer = none) (name : String) :
    h.lookup i name = Table.get? name s.bindings := by
  rw [lookup, chain, hs]
  simp only [houter, List.findSome?_cons, List.findSome?_nil]
  cases Table.get? name s.bindings with
  | none => rfl
  | some v => rfl

/-- What a scope does not bind itself is looked up in the scope around it. -/
theorem lookup_inside (hs : h.scopes[i]? = some s) (houter : s.outer = some outer) (hlt : outer < i)
    (name : String) :
    h.lookup i name = (Table.get? name s.bindings).or (h.lookup outer name) := by
  rw [lookup, chain, hs]
  simp only [houter, dif_pos hlt, List.findSome?_cons]
  cases Table.get? name s.bindings with
  | none => rfl
  | some v => rfl

theorem lookupWithin_succ (hs : h.scopes[i]? = some s) (name : String) (frames : Nat) :
    h.lookupWithin name (frames + 1) i =
      match Table.get? name s.bindings, s.outer with
      | some v, _ => .ok (some v)
      | none, none => .ok none
      | none, some outer => h.lookupWithin name frames outer := by
  cases hbound : Table.get? name s.bindings with
  | some v => simp only [lookupWithin, hs, hbound]
  | none => cases houter : s.outer <;> simp only [lookupWithin, hs, hbound, houter]

/-- The scope that is made last. -/
theorem scopes_addInside_new {n : Nat} (hn : h.next = n) (outer : ScopeId)
    (bindings : Table String Value) :
    (h.addInside outer bindings).scopes[n]? = some ⟨bindings, some outer, h.builtins outer⟩ := by
  subst hn
  simp [addInside, add, next]

end Heap

/-- What is found first in the beginning of a list is found first in the list, and not too far on. -/
theorem findSome?_take_eq_some_iff {α β : Type} {f : α → Option β} {l : List α} {n : Nat} {b : β} :
    (l.take n).findSome? f = some b ↔
      ∃ before a after, l = before ++ a :: after ∧ before.length < n ∧ f a = some b ∧
        ∀ x ∈ before, f x = none := by
  rw [List.findSome?_eq_some_iff]
  constructor
  · rintro ⟨before, a, after, htake, ha, hbefore⟩
    have hlength : (l.take n).length = before.length + after.length + 1 := by
      rw [htake, List.length_append, List.length_cons, Nat.add_assoc]
    have hle := List.length_take_le n l
    refine ⟨before, a, after ++ l.drop n, ?_, by omega, ha, hbefore⟩
    rw [← List.cons_append, ← List.append_assoc, ← htake, List.take_append_drop]
  · rintro ⟨before, a, after, rfl, hlt, ha, hbefore⟩
    obtain ⟨m, hm⟩ : ∃ m, n - before.length = m + 1 := ⟨n - before.length - 1, by omega⟩
    refine ⟨before, a, after.take m, ?_, ha, hbefore⟩
    rw [List.take_append, List.take_of_length_le (Nat.le_of_lt hlt), hm, List.take_succ_cons]

/-- What was done to scopes that were grown from one root, with the number of scopes there are now. -/
inductive Growth : Nat → Type where
  | root : Growth 1
  | enclosed {n : Nat} (g : Growth n) (outer : Fin n) : Growth (n + 1)
  | bound {n : Nat} (g : Growth n) (scope : Fin n) (name : String) (value : Value) : Growth n

namespace Growth

variable {n i j outer : Nat} {name : String}

/-- The heap after a history. -/
def heap (builtins : Registry) : {n : Nat} → Growth n → Heap
  | _, root => Heap.empty.addRoot builtins
  | _, enclosed g outer => (g.heap builtins).addInside outer []
  | _, bound g scope name value => (g.heap builtins).bind scope name value

/-- The scope that a scope was made in. -/
def outer? : {n : Nat} → Growth n → Nat → Option Nat
  | _, root, _ => none
  | n + 1, enclosed g outer, i => if i = n then some outer else g.outer? i
  | _, bound g _ _ _, i => g.outer? i

/-- The scopes from one outward. -/
def way : {n : Nat} → Growth n → Nat → List Nat
  | _, root, i => [i]
  | n + 1, enclosed g outer, i => if i = n then i :: g.way outer else g.way i
  | _, bound g _ _ _, i => g.way i

/-- What a name was bound to last in a scope, if it was ever bound there. -/
def latest? : {n : Nat} → Growth n → Nat → String → Option Value
  | _, root, _, _ => none
  | _, enclosed g _, i, name => g.latest? i name
  | _, bound g scope text value, i, name =>
      if i = scope ∧ name = text then some value else g.latest? i name

/-- The scope is among those on a way, and the name was never bound in any before it. -/
def Exposes (g : Growth n) (way : List Nat) (scope : Nat) (name : String) : Prop :=
  ∃ nearer farther, way = nearer ++ scope :: farther ∧ ∀ j ∈ nearer, g.latest? j name = none

section Ways

/-- A scope is younger than the one it was made in. -/
theorem outer?_lt (g : Growth n) (hi : i < n) (h : g.outer? i = some outer) : outer < i := by
  induction g with
  | root => cases h
  | @enclosed n g outside ih =>
      rw [outer?] at h
      split at h
      · next hnew =>
          cases h
          omega
      · next hold => exact ih (by omega) h
  | bound g scope text v ih => exact ih hi h

/-- The way from a scope that is inside no other is at its end. -/
theorem way_of_root (g : Growth n) (h : g.outer? i = none) : g.way i = [i] := by
  induction g with
  | root => rfl
  | @enclosed n g outside ih =>
      rw [outer?] at h
      split at h
      · cases h
      · next hold =>
          rw [way, if_neg hold]
          exact ih h
  | bound g scope text v ih => exact ih h

/-- The way from a scope goes on with the way from the one it was made in. -/
theorem way_of_inside (g : Growth n) (hi : i < n) (h : g.outer? i = some outer) :
    g.way i = i :: g.way outer := by
  induction g with
  | root => cases h
  | @enclosed n g outside ih =>
      have hlt : outer < i := outer?_lt _ hi h
      have hmade : outer ≠ n := by omega
      rw [outer?] at h
      rw [way, way, if_neg hmade]
      split at h
      · next hnew =>
          cases h
          rw [if_pos hnew]
      · next hold =>
          rw [if_neg hold]
          exact ih (by omega) h
  | bound g scope text v ih => exact ih hi h

end Ways

section Heaps

variable (builtins : Registry)

theorem next_heap (g : Growth n) : (g.heap builtins).next = n := by
  induction g with
  | root => rfl
  | enclosed g outer ih => rw [heap, Heap.addInside, Heap.next_add, ih]
  | bound g scope text v ih => rw [heap, Heap.next_bind, ih]

/-- Nothing was ever bound in a scope that does not exist yet. -/
theorem latest?_of_le (g : Growth n) (hi : n ≤ i) (name : String) : g.latest? i name = none := by
  induction g with
  | root => rfl
  | enclosed g outer ih => exact ih (by omega)
  | bound g scope text v ih =>
      have hne : i ≠ scope := by omega
      rw [latest?, if_neg (fun h => hne h.1)]
      exact ih hi

/-- The invariant: every scope is inside the one it was made in, and binds what was bound in it last. -/
theorem scopes_heap (g : Growth n) (hi : i < n) :
    ∃ s, (g.heap builtins).scopes[i]? = some s ∧ s.outer = g.outer? i ∧
      ∀ name, Table.get? name s.bindings = g.latest? i name := by
  induction g with
  | root =>
      obtain rfl : i = 0 := by omega
      exact ⟨⟨[], none, builtins⟩, rfl, rfl, fun _ => rfl⟩
  | @enclosed n g outer ih =>
      by_cases hnew : i = n
      · refine ⟨⟨[], some outer, (g.heap builtins).builtins outer⟩, ?_, ?_, ?_⟩
        · rw [hnew]
          exact Heap.scopes_addInside_new (g.next_heap builtins) outer []
        · rw [outer?, if_pos hnew]
        · intro name
          rw [latest?, latest?_of_le g (by omega)]
          rfl
      · obtain ⟨s, hs, houter, hbindings⟩ := ih (by omega)
        refine ⟨s, Heap.scopes_add hs _, ?_, hbindings⟩
        rw [outer?, if_neg hnew, houter]
  | bound g scope text v ih =>
      obtain ⟨s, hs, houter, hbindings⟩ := ih hi
      by_cases hself : i = scope
      · refine ⟨{ s with bindings := Table.put text v s.bindings }, ?_, houter, ?_⟩
        · rw [heap, hself]
          exact Heap.scopes_bind_self (hself ▸ hs) text v
        · intro name
          rw [Table.get?_put, latest?, hbindings]
          simp only [hself, true_and, eq_comm]
      · refine ⟨s, ?_, houter, ?_⟩
        · rw [heap, Heap.scopes_bind_of_ne (Ne.symm hself), hs]
        · intro name
          rw [latest?, if_neg (fun h => hself h.1), hbindings]

/-- A look-up finds what the name was bound to last in the nearest scope it was ever bound in.  The induction
is on the number of the scope, which is greater than that of the scope around it. -/
theorem lookup_heap (g : Growth n) (hi : i < n) (name : String) :
    (g.heap builtins).lookup i name = (g.way i).findSome? (g.latest? · name) := by
  induction i using Nat.strongRecOn with
  | ind i ih =>
      obtain ⟨s, hs, houter, hbindings⟩ := g.scopes_heap builtins hi
      cases hmade : g.outer? i with
      | none =>
          rw [hmade] at houter
          rw [Heap.lookup_root hs houter, hbindings, g.way_of_root hmade, List.findSome?_singleton]
      | some outer =>
          have hlt : outer < i := g.outer?_lt hi hmade
          rw [hmade] at houter
          rw [Heap.lookup_inside hs houter hlt, hbindings, g.way_of_inside hi hmade,
            ih outer hlt (by omega), List.findSome?_cons]
          cases g.latest? i name with
          | none => rfl
          | some v => rfl

theorem way_ne_nil (g : Growth n) (hi : i < n) : g.way i ≠ [] := by
  cases hmade : g.outer? i with
  | none =>
      rw [g.way_of_root hmade]
      exact List.cons_ne_nil _ _
  | some outer =>
      rw [g.way_of_inside hi hmade]
      exact List.cons_ne_nil _ _

/-- A look-up with so many frames goes through so many scopes.  The induction is on the frames, one of which
every scope takes. -/
theorem lookupWithin_heap (g : Growth n) (hi : i < n) (name : String) (frames : Nat) :
    (g.heap builtins).lookupWithin name frames i =
      match ((g.way i).take frames).findSome? (g.latest? · name) with
      | some v => .ok (some v)
      | none => if (g.way i).length ≤ frames then .ok none else .error .stackFull := by
  induction frames generalizing i with
  | zero =>
      have hpositive := List.length_pos_iff.mpr (g.way_ne_nil hi)
      rw [List.take_zero, List.findSome?_nil]
      exact (if_neg (Nat.not_le_of_lt hpositive)).symm
  | succ frames ih =>
      obtain ⟨s, hs, houter, hbindings⟩ := g.scopes_heap builtins hi
      rw [Heap.lookupWithin_succ hs, hbindings, houter]
      cases hmade : g.outer? i with
      | none =>
          rw [g.way_of_root hmade, List.take_succ_cons, List.take_nil, List.findSome?_singleton]
          cases g.latest? i name with
          | some v => rfl
          | none => exact (if_pos (Nat.succ_le_succ (Nat.zero_le _))).symm
      | some outer =>
          have hlt : outer < i := g.outer?_lt hi hmade
          rw [g.way_of_inside hi hmade, List.take_succ_cons, List.findSome?_cons]
          cases g.latest? i name with
          | some v => rfl
          | none =>
              simp only [List.length_cons, Nat.succ_le_succ_iff]
              exact ih (by omega)

/-- With a frame for every scope on the way, a look-up is one that nothing stops. -/
theorem lookupWithin_of_length_le (g : Growth n) (hi : i < n) (name : String) {frames : Nat}
    (hroom : (g.way i).length ≤ frames) :
    (g.heap builtins).lookupWithin name frames i = .ok ((g.heap builtins).lookup i name) := by
  rw [g.lookupWithin_heap builtins hi, g.lookup_heap builtins hi, List.take_of_length_le hroom,
    if_pos hroom]
  cases (g.way i).findSome? (g.latest? · name) with
  | some v => rfl
  | none => rfl

end Heaps

section Bindings

variable {g : Growth n} {scope : Fin n} {text : String} {v : Value} {way : List Nat}

theorem latest?_bound (i : Nat) (name : String) :
    (g.bound scope text v).latest? i name =
      if i = scope ∧ name = text then some v else g.latest? i name := rfl

/-- A new binding is found on a way on which its scope is exposed. -/
theorem findSome?_bound_of_exposes (h : g.Exposes way scope text) :
    way.findSome? ((g.bound scope text v).latest? · text) = some v := by
  obtain ⟨nearer, farther, rfl, hnone⟩ := h
  induction nearer with
  | nil => simp [latest?_bound]
  | cons j nearer ih =>
      rw [List.forall_mem_cons] at hnone
      rw [List.cons_append, List.findSome?_cons, latest?_bound, hnone.1]
      by_cases hj : j = scope
      · simp [hj]
      · simp only [hj, false_and, if_false]
        exact ih hnone.2

/-- Where its scope is not exposed, or for another name, what was found before is found again. -/
theorem findSome?_bound_of_not_exposes (h : ¬(name = text ∧ g.Exposes way scope text)) :
    way.findSome? ((g.bound scope text v).latest? · name) =
      way.findSome? (g.latest? · name) := by
  induction way with
  | nil => rfl
  | cons j way ih =>
      rw [List.findSome?_cons, List.findSome?_cons, latest?_bound]
      have hj : ¬(j = scope ∧ name = text) := by
        rintro ⟨rfl, rfl⟩
        exact h ⟨rfl, [], way, rfl, by simp⟩
      rw [if_neg hj]
      cases hlatest : g.latest? j name with
      | some w => rfl
      | none =>
          apply ih
          rintro ⟨rfl, nearer, farther, rfl, hnone⟩
          refine h ⟨rfl, j :: nearer, farther, rfl, ?_⟩
          rw [List.forall_mem_cons]
          exact ⟨hlatest, hnone⟩

end Bindings

section Nests

/-- Scopes each of which is inside the one made before it. -/
def nested : (n : Nat) → Growth (n + 1)
  | 0 => root
  | n + 1 => (nested n).enclosed (Fin.last n)

theorem length_way_nested (n : Nat) : ((nested n).way n).length = n + 1 := by
  induction n with
  | zero => rfl
  | succ n ih =>
      rw [nested, way, if_pos rfl, List.length_cons]
      exact congrArg Nat.succ ih

theorem latest?_nested (n i : Nat) (name : String) : (nested n).latest? i name = none := by
  induction n with
  | zero => rfl
  | succ n ih => exact ih

/-- From the innermost of `n + 1` scopes that bind nothing, a look-up ends if it has as many frames. -/
theorem lookupWithin_nested (builtins : Registry) (n frames : Nat) (name : String) :
    ((nested n).heap builtins).lookupWithin name frames n =
      if n + 1 ≤ frames then .ok none else .error .stackFull := by
  have hnone : (((nested n).way n).take frames).findSome? ((nested n).latest? · name) = none :=
    List.findSome?_eq_none_iff.mpr fun j _ => latest?_nested n j name
  rw [lookupWithin_heap builtins _ (Nat.lt_succ_self n), hnone, length_way_nested]

end Nests

end Growth

/-- Take any history of scopes grown from one root, and a look-up from one of them that has so many frames.
It finds what the name was bound to last in the nearest scope, from this one outward, that it was ever bound
in, if there are fewer scopes before that one than frames; it finds nothing if there is no such scope, and a
frame for every scope on the way.  Otherwise the stack is full; with a frame for every scope on the way that
cannot be.  If a name is then bound in a scope, the look-ups that find the new value are those of this name
that see the scope exposed: from the scope itself, and from those inside it on whose way to it the name was
never bound.  All others come to what they came to before. -/
theorem lookups_follow_history (builtins : Registry) {n : Nat} (g : Growth n) (i : Fin n)
    (name : String) (frames : Nat) :
    (∀ v, (g.heap builtins).lookupWithin name frames i = .ok (some v) ↔
      ∃ nearer j farther, g.way i = nearer ++ j :: farther ∧ nearer.length < frames ∧
        g.latest? j name = some v ∧ ∀ k ∈ nearer, g.latest? k name = none) ∧
    ((g.heap builtins).lookupWithin name frames i = .ok none ↔
      (∀ j ∈ g.way i, g.latest? j name = none) ∧ (g.way i).length ≤ frames) ∧
    ((g.heap builtins).lookupWithin name frames i = .error .stackFull ↔
      (∀ j ∈ (g.way i).take frames, g.latest? j name = none) ∧ frames < (g.way i).length) ∧
    ((g.way i).length ≤ frames →
      (g.heap builtins).lookupWithin name frames i = .ok ((g.heap builtins).lookup i name)) ∧
    ∀ (scope : Fin n) (text : String) (v : Value),
      (name = text ∧ g.Exposes ((g.way i).take frames) scope text →
        ((g.bound scope text v).heap builtins).lookupWithin name frames i = .ok (some v)) ∧
      (¬(name = text ∧ g.Exposes ((g.way i).take frames) scope text) →
        ((g.bound scope text v).heap builtins).lookupWithin name frames i =
          (g.heap builtins).lookupWithin name frames i) := by
  have hlookup := g.lookupWithin_heap builtins i.isLt name frames
  refine ⟨?_, ?_, ?_, g.lookupWithin_of_length_le builtins i.isLt name, ?_⟩
  · intro v
    rw [hlookup, ← findSome?_take_eq_some_iff]
    cases ((g.way i).take frames).findSome? (g.latest? · name) with
    | some w => simp
    | none => by_cases hroom : (g.way i).length ≤ frames <;> simp [hroom]
  · rw [hlookup]
    by_cases hroom : (g.way i).length ≤ frames
    · rw [List.take_of_length_le hroom, ← List.findSome?_eq_none_iff, if_pos hroom]
      cases (g.way i).findSome? (g.latest? · name) with
      | some w => simp
      | none => simp [hroom]
    · rw [if_neg hroom]
      cases ((g.way i).take frames).findSome? (g.latest? · name) with
      | some w => simp [hroom]
      | none => simp [hroom]
  · rw [hlookup, ← List.findSome?_eq_none_iff]
    cases ((g.way i).take frames).findSome? (g.latest? · name) with
    | some w => simp
    | none =>
        by_cases hroom : (g.way i).length ≤ frames
        · simp [hroom, Nat.not_lt_of_le hroom]
        · simp [hroom, Nat.lt_of_not_le hroom]
  · intro scope text v
    rw [(g.bound scope text v).lookupWithin_heap builtins i.isLt name frames, hlookup, Growth.way]
    constructor
    · rintro ⟨rfl, hexposed⟩
      rw [Growth.findSome?_bound_of_exposes hexposed]
    · intro hhidden
      rw [Growth.findSome?_bound_of_not_exposes hhidden]

/-- From the innermost of a thousand and one scopes, a look-up of a name that none of them binds finds the
stack full when it has the frames of the base limit. -/
theorem lookup_from_nested_scopes :
    let g := Growth.nested 1000
    (∀ j ∈ g.way 1000, g.latest? j "x" = none) ∧
      (g.heap .default).lookupWithin "x" baseLimit.toNat 1000 = .error .stackFull := by
  refine ⟨fun j _ => Growth.latest?_nested 1000 j "x", ?_⟩
  rw [Growth.lookupWithin_nested]
  exact if_neg (by decide)

end Scriptlet
