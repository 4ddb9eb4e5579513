/-!
# Tables

A table is a list of keys with their values, in the order in which the keys were first put in.

**Results.**
* `Table.get?_put`: after a put the key has the new value, and every other key what it had.
* `Table.keys_put`: a put adds its key at the end, unless the key is there already.
-/

namespace Scriptlet

/-- Keys with values, in the order in which the keys were first put in. -/
abbrev Table (κ α : Type) := List (κ × α)

namespace Table

variable {κ α : Type} [DecidableEq κ]

/-- The value of a key. -/
def get? (key : κ) : Table κ α → Option α
  | [] => none
  | (k, v) :: rest => if k = key then some v else get? key rest

/-- Gives a key a value: a key that is there keeps its place, a new one comes last. -/
def put (key : κ) (value : α) : Table κ α → Table κ α
  | [] => [(key, value)]
  | (k, v) :: rest => if k = key then (k, value) :: rest else (k, v) :: put key value rest

/-- The keys, in order. -/
def keys (t : Table κ α) : List κ :=
  t.map Prod.fst

theorem get?_put (key other : κ) (value : α) :
    ∀ t : Table κ α,
      get? other (put key value t) = if key = other then some value else get? other t
  | [] => by simp [put, get?]
  | (k, v) :: rest => by
      have ih := get?_put key other value rest
      simp only [put]
      split
      · next hk =>
          subst hk
          simp only [get?]
          split <;> rfl
      · next hk =>
          simp only [get?, ih]
          split
          · next ho =>
              subst ho
              simp [Ne.symm hk]
          · rfl

theorem keys_put (key : κ) (value : α) :
    ∀ t : Table κ α,
      keys (put key value t) = if key ∈ keys t then keys t else keys t ++ [key]
  | [] => by simp [put, keys]
  | (k, v) :: rest => by
      have ih := keys_put key value rest
      simp only [keys] at ih
      simp only [put]
      split
      · next hk => simp [keys, hk]
      · next hk =>
          by_cases hm : key ∈ List.map Prod.fst rest
          · simp [keys, ih, hm]
          · simp [keys, ih, hm, Ne.symm hk]

/-- Only keys have values. -/
theorem get?_of_not_mem_keys {t : Table κ α} {key : κ} (h : key ∉ keys t) : get? key t = none := by
  induction t with
  | nil => rfl
  | cons entry rest ih =>
      rw [keys, List.map_cons, List.mem_cons, not_or] at h
      rw [get?, if_neg (Ne.symm h.1)]
      exact ih h.2

/-- A put keeps the keys distinct. -/
theorem nodup_keys_put {t : Table κ α} (h : (keys t).Nodup) (key : κ) (value : α) :
    (keys (put key value t)).Nodup := by
  rw [keys_put]
  split
  · exact h
  · next hmem =>
      rw [List.nodup_append]
      refine ⟨h, List.pairwise_singleton _ _, ?_⟩
      intro a ha b hb heq
      rw [List.mem_singleton] at hb
      exact hmem (hb ▸ heq ▸ ha)

end Table

end Scriptlet
