/-!
# The stack of the host

Some operations recurse on the stack of the host, and stop when it is full.  Such an operation is told how
many frames are left for it.

How many are left, and how many a step takes, differs from host to host and from moment to moment.  So
what is proved of such an operation is proved for every number of them.
-/

namespace Scriptlet

/-- The stack of the host is full. -/
inductive Overflow where
  | stackFull
  deriving DecidableEq, Repr

/-- What an operation comes to for which the stack may be too small. -/
abbrev Bounded := Except Overflow

/-- The frames that are left when some are taken. -/
def takeFrames (taken frames : Nat) : Bounded Nat :=
  if taken ≤ frames then .ok (frames - taken) else .error .stackFull

theorem takeFrames_of_le {taken frames : Nat} (h : taken ≤ frames) :
    takeFrames taken frames = .ok (frames - taken) :=
  if_pos h

theorem takeFrames_of_lt {taken frames : Nat} (h : frames < taken) :
    takeFrames taken frames = .error .stackFull :=
  if_neg (Nat.not_le_of_lt h)

end Scriptlet
