import Scriptlet.Evaluation
import Scriptlet.Parser.Grammar
import Scriptlet.Settings
import Scriptlet.Text.Joined

/-!
# Sessions

Sources are run one after the other in one scope.

**Order.**  A source is read completely before anything of it runs, so one with syntax errors
changes nothing.  The limit on depth is looked at after reading and before running.

**Failures.**  A run that does not end in a value fails, for one of four causes.  What it has bound
before failing stays.

**Depth.**  How many calls a limit allows to nest depends on where the host stands when a run starts.  A run
`Within` a depth is told; any other run has the depth of `callDepth`.
-/

namespace Scriptlet

/-- Why a run does not end in a value. -/
inductive Failure where
  /-- The source has syntax errors. -/
  | malformed (errors : List SyntaxError)
  /-- A numeral has more digits than can be read. -/
  | numeralTooLong
  /-- Expressions or calls are nested too deeply. -/
  | tooDeep
  /-- The limit on depth cannot be put in force. -/
  | badLimit (fault : LimitFault)
  deriving DecidableEq, Repr

/-- The texts of syntax errors in one line. -/
def errorSummary (texts : List String) : String :=
  if texts = [] then "parse error" else Text.joined "; " texts

/-- The texts of syntax errors on lines of their own. -/
def errorLines (texts : List String) : String :=
  Text.joined "\n" (texts.map ("\t" ++ ·))

namespace Failure

/-- The failure that a fault of the parser is. -/
def ofFault : Parser.Fault → Failure
  | .numeralTooLong => numeralTooLong
  | .nestedTooDeeply => tooDeep

/-- The wording of a failure, for those that have one. -/
def message? : Failure → Option String
  | malformed errors => some (errorSummary (errors.map SyntaxError.message))
  | badLimit fault => some fault.message
  | numeralTooLong => none
  | tooDeep => none

end Failure

section Runs

variable [Natives]

/-- Evaluates a phrase in a scope, where a limit allows so many calls to nest. -/
def evaluateWithin (depth : Int → Nat) (settings : Settings) (scope : ScopeId) (n : Node) (h : Heap) :
    Except Failure Value × Heap :=
  match settings.limitInForce with
  | .error fault => (.error (.badLimit fault), h)
  | .ok limit =>
      match (n.eval (callWithin (depth limit)) scope).start h with
      | (.error .callsTooDeep, h) => (.error .tooDeep, h)
      | (.ok v, h) => (.ok v, h)

/-- Runs a program in a scope. -/
def runProgramWithin (depth : Int → Nat) (settings : Settings) (scope : ScopeId) (p : Program)
    (h : Heap) : Except Failure Value × Heap :=
  evaluateWithin depth settings scope (.program p) h

/-- Runs a source in a scope. -/
def runWithin (depth : Int → Nat) (settings : Settings) (scope : ScopeId) (source : String) (h : Heap) :
    Except Failure Value × Heap :=
  match parse source with
  | .error fault => (.error (.ofFault fault), h)
  | .ok parsed =>
      if parsed.errors = [] then runProgramWithin depth settings scope parsed.program h
      else (.error (.malformed parsed.errors), h)

/-- Evaluates a phrase in a scope. -/
def evaluate (settings : Settings) (scope : ScopeId) (n : Node) (h : Heap) :
    Except Failure Value × Heap :=
  evaluateWithin callDepth settings scope n h

/-- Runs a program in a scope. -/
def runProgram (settings : Settings) (scope : ScopeId) (p : Program) (h : Heap) :
    Except Failure Value × Heap :=
  evaluate settings scope (.program p) h

/-- Runs a source in a scope. -/
def run (settings : Settings) (scope : ScopeId) (source : String) (h : Heap) :
    Except Failure Value × Heap :=
  runWithin callDepth settings scope source h

/-- Runs a source in a new scope that nothing encloses. -/
def runFresh (settings : Settings) (source : String) (h : Heap) : Except Failure Value × Heap :=
  run settings h.next source (h.addRoot .default)

/-- Calls a value outside an evaluation, where only the base limit holds. -/
def callOutside (f : Value) (arguments : List Value) (h : Heap) : Except Failure Value × Heap :=
  match (callWithin (callDepth baseLimit) f arguments).start h with
  | (.error .callsTooDeep, h) => (.error .tooDeep, h)
  | (.ok v, h) => (.ok v, h)

end Runs

/-- A scope in which sources are run, with the heap it is in. -/
structure Session where
  heap : Heap
  scope : ScopeId

namespace Session

/-- A new scope. -/
def new (builtins : Registry) : Session :=
  ⟨Heap.empty.addRoot builtins, Heap.empty.next⟩

section Runs

variable [Natives]

/-- Runs a source, where a limit allows so many calls to nest. -/
def runWithin (depth : Int → Nat) (settings : Settings) (s : Session) (source : String) :
    Except Failure Value × Session :=
  let (result, heap) := Scriptlet.runWithin depth settings s.scope source s.heap
  (result, { s with heap := heap })

/-- Runs a program, where a limit allows so many calls to nest. -/
def runProgramWithin (depth : Int → Nat) (settings : Settings) (s : Session) (p : Program) :
    Except Failure Value × Session :=
  let (result, heap) := Scriptlet.runProgramWithin depth settings s.scope p s.heap
  (result, { s with heap := heap })

/-- Runs a source. -/
def run (settings : Settings) (s : Session) (source : String) : Except Failure Value × Session :=
  s.runWithin callDepth settings source

end Runs

/-- The bindings of the scope as they are shown. -/
def listing (s : Session) : List (String × String) :=
  s.heap.listing s.scope

end Session

end Scriptlet
