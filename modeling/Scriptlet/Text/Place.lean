/-!
# Places in a text

Where an index points in a text, or in a list of lines.

**From the end.**  An index below zero counts from the end.  One that points before the start even
so is no place; as the end of a cut it means the start.

**Results.**
* `Text.place?_eq_none_iff`: an index is no place if it is below zero by more than the length.
* `Text.cutEnd_le`: a cut that counts from the end lies within the text.
-/

namespace Scriptlet

namespace Text

/-- The place that an index points to in a text of a given length; it may lie past the end. -/
def place? (length : Nat) (index : Int) : Option Nat :=
  if 0 ≤ index then some index.toNat
  else if 0 ≤ index + length then some (index + length).toNat
  else none

/-- The place where a cut that ends at an index ends, in a text of a given length. -/
def cutEnd (length : Nat) (index : Int) : Nat :=
  if 0 ≤ index then index.toNat else (index + length).toNat

theorem place?_natCast (length n : Nat) : place? length n = some n := by
  simp [place?]

theorem place?_eq_none_iff (length : Nat) (index : Int) :
    place? length index = none ↔ index + length < 0 := by
  unfold place?
  split
  · simp only [reduceCtorEq, false_iff]
    omega
  · split
    · simp only [reduceCtorEq, false_iff]
      omega
    · simp only [true_iff]
      omega

theorem cutEnd_natCast (length n : Nat) : cutEnd length n = n := by
  simp [cutEnd]

theorem cutEnd_le (length : Nat) (index : Int) (h : index ≤ 0) : cutEnd length index ≤ length := by
  unfold cutEnd
  split <;> omega

end Text

end Scriptlet
