import Scriptlet.Settings
import Scriptlet.Value.Showing

/-!
# The host

The command line and the shell run on the stack of the host.  How much of it is left there, what their work
takes of it, and how the host words that it is full, differs from host to host and between the two.

**Frames.**  The host limits all frames together, and the frames below a surface count too.  Which of them an
operation takes depends on the host, not only on the source.  So nothing is fixed here but what holds of
every host, and what is proved of the surfaces is proved for all hosts.

**The plain host** is the one that is run: the whole base limit is there for every piece of work but for the
one frame the work is done in, and each piece takes what it takes at least.  No real host has so much.
-/

namespace Scriptlet

/-- The two ways to hand over a source. -/
inductive Surface where
  | commandLine
  | shell
  deriving DecidableEq, Repr

/-- What is up to the host. -/
class Host where
  /-- Whether the shell has the frames to lay out an outline. -/
  fitsTree : Outline → Bool
  /-- Every level of an outline takes a frame. -/
  depth_lt_of_fitsTree : ∀ {o : Outline}, fitsTree o = true → o.depth < baseLimit
  /-- How deep calls may nest while a limit holds. -/
  callDepth : Surface → Int → Nat
  /-- What it takes to show a value. -/
  showing : ShowingCost
  /-- The frames that are left to show a value. -/
  framesLeft : Surface → Nat
  /-- A value that holds no others, and is no function, can be shown. -/
  fits_leaf : ∀ surface kind, showing.leaf kind ≤ framesLeft surface
  /-- The wording for a stack that is full. -/
  complaint : Surface → String

namespace Host

/-- What the frames that are left under the base limit are enough for. -/
def framesBelowBase : Nat :=
  baseLimit.toNat - 1

/-- The host that leaves the most and takes the least. -/
abbrev plain : Host where
  fitsTree o := o.depth < baseLimit
  depth_lt_of_fitsTree h := of_decide_eq_true h
  callDepth _ limit := Scriptlet.callDepth limit
  showing := .least
  framesLeft _ := framesBelowBase
  fits_leaf _ _ := show 1 ≤ framesBelowBase by decide
  complaint _ := "maximum recursion depth exceeded"

instance (priority := low) : Host := plain

end Host

end Scriptlet
