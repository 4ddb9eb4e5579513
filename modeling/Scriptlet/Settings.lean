import Scriptlet.Text.Numeral
import Scriptlet.Text.Quoted

/-!
# Settings

What the surroundings decide: whether host traces are shown, the prompt of the shell, and how deep
calls may nest.  Each is a variable that may be unset; an empty one counts as unset.

**Depth.**  The limit is one on the frames of the host.  It is never lower than `baseLimit`, which also
holds outside an evaluation.  A limit above `greatestLimit`, the greatest signed integer of thirty-two
bits, can be set but not put in force.

**An idealised stack.**  Only calls are counted against the limit, nine frames each.  On a real host a call
takes more frames or fewer, by the version of the host and by the phrases the call stands in; phrases take
frames without any call, and some are in use before an evaluation starts.  What is proved about depth is
about calls that nest up to a bound that a greater limit does not lower, and nine is only the number that is
run with.
-/

namespace Scriptlet

/-- The variables as they are set. -/
structure Settings where
  trace : Option String
  prompt : Option String
  recursionLimit : Option String
  deriving DecidableEq, Repr

/-- The limit that holds outside an evaluation, where the host is left as it is. -/
def baseLimit : Int := 1000

/-- The limit that holds if none is set. -/
def defaultLimit : Int := 10000

/-- The greatest limit that can be put in force. -/
def greatestLimit : Int := 0x7FFFFFFF

/-- What is wrong with a limit. -/
inductive LimitFault where
  /-- It is set to something that is not an integer. -/
  | notInteger (setting : String)
  /-- It is too large to be put in force. -/
  | tooLarge
  deriving DecidableEq, Repr

/-- The wording of a fault. -/
def LimitFault.message : LimitFault → String
  | notInteger setting =>
      "MONKEY_RECURSION_LIMIT must be an integer, got " ++ Text.quoted setting
  | tooLarge => "Python int too large to convert to C int"

/-- The limit that holds during an evaluation. -/
def effectiveLimit (limit : Int) : Except LimitFault Int :=
  if greatestLimit < limit then .error .tooLarge else .ok (max baseLimit limit)

/-- How many frames a call takes on the idealised host. -/
def framesPerCall : Nat := 9

/-- How deep calls may nest on the idealised host while a limit holds. -/
def callDepth (limit : Int) : Nat :=
  limit.toNat / framesPerCall

namespace Settings

/-- No variable is set. -/
def unset : Settings := ⟨none, none, none⟩

/-- A variable that is set, and not to nothing. -/
def present? : Option String → Option String
  | some "" => none
  | setting => setting

/-- Whether host traces are shown. -/
def tracing (s : Settings) : Bool :=
  (present? s.trace).isSome

/-- Turns host traces on or off. -/
def setTracing (s : Settings) (enabled : Bool) : Settings :=
  { s with trace := if enabled then some "1" else none }

/-- The prompt of the shell. -/
def promptText (s : Settings) : String :=
  (present? s.prompt).getD ">> "

/-- The limit that is set. -/
def limit (s : Settings) : Except LimitFault Int :=
  match present? s.recursionLimit with
  | none => .ok defaultLimit
  | some setting =>
      match Text.integer? setting with
      | none => .error (.notInteger setting)
      | some n => .ok n

/-- The limit that holds during an evaluation. -/
def limitInForce (s : Settings) : Except LimitFault Int := do
  effectiveLimit (← s.limit)

end Settings

end Scriptlet
