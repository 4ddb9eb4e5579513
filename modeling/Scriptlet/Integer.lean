/-!
# Machine integers

The integers of the language are the signed integers of sixty-four bits.  An operation whose exact
result lies outside that range fails; it never wraps around.
-/

namespace Scriptlet

/-- The least integer of the language, minus two to the power of sixty-three. -/
def minInteger : Int := -0x8000000000000000

/-- The greatest integer of the language, one less than two to the power of sixty-three. -/
def maxInteger : Int := 0x7FFFFFFFFFFFFFFF

/-- Whether an integer is one of the language. -/
def inRange (n : Int) : Bool :=
  minInteger ≤ n && n ≤ maxInteger

end Scriptlet
