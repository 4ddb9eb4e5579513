import Scriptlet.Program.Outline
import Scriptlet.Stack
import Scriptlet.Value

/-!
# Showing values

The text of a result is made when its evaluation is over, on what the host has of its stack then.  A value
may be nested more deeply than that.

**Cost.**  Showing a value takes frames for the value itself, and on top of them those of what it holds.
How many it takes for itself depends on the host; that of a function is all in its body.
-/

namespace Scriptlet

/-- How many frames of the host a value takes to be shown: an array and what a `return` carries besides those
of what they hold, a function with its body, and any other value by its kind (`leaf`). -/
structure ShowingCost where
  leaf : Kind → Nat
  function : Closure → Nat
  array : Nat
  returned : Nat

/-- A cost that no host undercuts: two frames for an array and one for any other value, and one for every
level of the body of a function. -/
def ShowingCost.least : ShowingCost where
  leaf _ := 1
  function f := Outline.depthAll (Stmt.outlines f.body) + 1
  array := 2
  returned := 1

namespace Value

mutual

/-- How many frames it takes to show a value. -/
def framesToShow (cost : ShowingCost) : Value → Nat
  | array items => framesToShowAll cost items + cost.array
  | function closure => cost.function closure
  | returned _ value => framesToShow cost value + cost.returned
  | v => cost.leaf v.kind

/-- How many frames it takes to show the one among several values that takes the most. -/
def framesToShowAll (cost : ShowingCost) : List Value → Nat
  | [] => 0
  | v :: rest => max (framesToShow cost v) (framesToShowAll cost rest)

end

/-- The text of a value, if there are frames to make it. -/
def shownWithin (cost : ShowingCost) (frames : Nat) (v : Value) : Bounded String := do
  let _ ← takeFrames (v.framesToShow cost) frames
  return v.display

theorem shownWithin_of_le {cost : ShowingCost} {frames : Nat} {v : Value}
    (h : v.framesToShow cost ≤ frames) : v.shownWithin cost frames = .ok v.display := by
  rw [shownWithin, takeFrames_of_le h]
  rfl

theorem shownWithin_of_lt {cost : ShowingCost} {frames : Nat} {v : Value}
    (h : frames < v.framesToShow cost) : v.shownWithin cost frames = .error .stackFull := by
  rw [shownWithin, takeFrames_of_lt h]
  rfl

end Value

end Scriptlet
