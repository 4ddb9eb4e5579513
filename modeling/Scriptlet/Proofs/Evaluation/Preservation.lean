import Scriptlet.Proofs.Evaluation.History

/-!
# What evaluations preserve

An invariant of heaps is kept by a history if each of its events keeps it.

**The judgement.**  `Preserves I E x Q`: from a heap with the invariant `I`, every event of `x` meets
`E`, and what `x` yields satisfies `Q`.  If events that meet `E` keep `I` (`Keep E I`), the judgement
can be put together from its parts (`Preserves.bind`).

**Result.**  `replay_preserves`: what one event keeps, a history keeps.
-/

namespace Scriptlet

/-- Events that meet the condition keep the invariant. -/
def Keep (E : Event → Prop) (I : Heap → Prop) : Prop :=
  ∀ ⦃event : Event⦄ ⦃h : Heap⦄, E event → I h → I (event.apply h)

variable {I : Heap → Prop} {E : Event → Prop}

theorem replay_preserves (hkeep : Keep E I) {events : List Event} {h : Heap}
    (hevents : ∀ event ∈ events, E event) (hh : I h) : I (replay events h) := by
  induction events generalizing h with
  | nil => exact hh
  | cons event events ih =>
      obtain ⟨hfirst, hrest⟩ := List.forall_mem_cons.mp hevents
      exact ih hrest (hkeep hfirst hh)

/-- From a heap with the invariant, every event meets the condition and what is yielded has the
property. -/
def Preserves {α : Type} (I : Heap → Prop) (E : Event → Prop) (x : Recorded α) (Q : α → Prop) : Prop :=
  ∀ h : Heap, I h → (∀ event ∈ (x h).1, E event) ∧ ∀ a, (x h).2 = .ok a → Q a

section Rules

variable {α β : Type} {Q : α → Prop} {R : β → Prop}

theorem preserves_pure {a : α} (ha : Q a) : Preserves I E (pure a) Q := by
  intro h _
  refine ⟨by simp [Recorded.run_pure], ?_⟩
  intro b hb
  cases hb
  exact ha

theorem Preserves.mono {Q' : α → Prop} {x : Recorded α} (hx : Preserves I E x Q)
    (h : ∀ a, Q a → Q' a) : Preserves I E x Q' := by
  intro heap hheap
  obtain ⟨hevents, hvalue⟩ := hx heap hheap
  exact ⟨hevents, fun a ha => h a (hvalue a ha)⟩

/-- The second evaluation starts from a heap with the invariant, for the first one has kept it. -/
theorem Preserves.bind (hkeep : Keep E I) {x : Recorded α} {f : α → Recorded β}
    (hx : Preserves I E x Q) (hf : ∀ a, Q a → Preserves I E (f a) R) :
    Preserves I E (x >>= f) R := by
  intro h hh
  obtain ⟨hevents, hvalue⟩ := hx h hh
  rw [Recorded.run_bind]
  generalize x h = result at hevents hvalue
  obtain ⟨events, outcome⟩ := result
  cases outcome with
  | error e =>
      refine ⟨hevents, ?_⟩
      intro b hb
      cases hb
  | ok a =>
      obtain ⟨hmore, hresult⟩ :=
        hf a (hvalue a rfl) (replay events h) (replay_preserves hkeep hevents hh)
      exact ⟨List.forall_mem_append.mpr ⟨hevents, hmore⟩, hresult⟩

theorem preserves_happen {event : Event} (hevent : E event) :
    Preserves I E (Recorded.happen event) fun _ => True :=
  fun _ _ => ⟨List.forall_mem_singleton.mpr hevent, fun _ _ => trivial⟩

theorem preserves_newSerial (hnumbered : E .numbered) :
    Preserves I E Recorded.newSerial fun _ => True :=
  fun _ _ => ⟨List.forall_mem_singleton.mpr hnumbered, fun _ _ => trivial⟩

variable {P P' : Value → Prop} {x : Recorded Value}

theorem Preserves.noting (hkeep : Keep E I) {event : Value → Event} (hx : Preserves I E x P)
    (hevent : ∀ v, P v → E (event v)) : Preserves I E (Recorded.noting event x) P :=
  hx.bind hkeep fun v hv => (preserves_happen (hevent v hv)).bind hkeep fun _ _ => preserves_pure hv

/-- An error is handed on. -/
theorem Preserves.unlessError (hkeep : Keep E I) {f : Value → Recorded Value}
    (hx : Preserves I E x P) (hP : ∀ v, P v → P' v) (hf : ∀ v, P v → Preserves I E (f v) P') :
    Preserves I E (Recorded.unlessError x f) P' := by
  refine hx.bind hkeep fun v hv => ?_
  by_cases herror : v.isError = true
  · rw [if_pos herror]
    exact preserves_pure (hP v hv)
  · rw [if_neg herror]
    exact hf v hv

end Rules

end Scriptlet
