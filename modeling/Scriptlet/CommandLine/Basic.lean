import Scriptlet.CommandLine.Files
import Scriptlet.Host
import Scriptlet.Session
import Scriptlet.Shell.Output

/-!
# The command line

One source is run, and its value is written.

**Arguments.**  A flag turns host traces on, wherever it stands.  One other argument is allowed: a
file to run, or a source if it names no file.  If it is missing, empty or a single dash, the source
is what stands on the standard input.

**Results.**  A null value writes nothing.  An error value, syntax errors and nesting that is too
deep are written to the second channel, and the exit code is one.  A value for whose text the host has no
frames left is not handled.
-/

namespace Scriptlet

namespace CommandLine

/-- The flag that turns host traces on. -/
def traceFlag : String := "--py-traceback"

/-- How the command line ends. -/
inductive Ending where
  /-- With an exit code. -/
  | code (n : Nat)
  /-- With a complaint about how it was called. -/
  | complaint (text : String)
  /-- With a failure that is not handled. -/
  | failure (f : Failure)
  /-- With a file name that cannot be looked up. -/
  | unreachableFile
  /-- With a file that is not text. -/
  | undecodableFile
  deriving DecidableEq, Repr

/-- What is left behind. -/
structure Report where
  ending : Ending
  output : Output
  settings : Settings

/-- Goes through the arguments: the settings they leave, and the one that is not a flag, or the
first that is one too many. -/
def readArguments (settings : Settings) (found : Option String) :
    List String → Settings × Except String (Option String)
  | [] => (settings, .ok found)
  | argument :: rest =>
      if argument = traceFlag then readArguments (settings.setTracing true) found rest
      else
        match found with
        | none => readArguments settings (some argument) rest
        | some _ => (settings, .error argument)

/-- Where a source comes from. -/
inductive SourceName where
  | standardInput
  | named (text : String)
  deriving DecidableEq, Repr

/-- Where an argument says the source comes from. -/
def SourceName.ofArgument : Option String → SourceName
  | none => standardInput
  | some "" => standardInput
  | some "-" => standardInput
  | some text => named text

/-- The source: a name that leads to no file is the source itself. -/
def loadSource (stdin : String) (probe : String → FileAnswer) :
    SourceName → Except Ending String
  | .standardInput =>
      if stdin = "" then .error (.complaint "No input provided on stdin") else .ok stdin
  | .named text =>
      match probe text with
      | .notFile => .ok text
      | .unreachable => .error .unreachableFile
      | .contents bytes =>
          match FileAnswer.decode? bytes with
          | none => .error .undecodableFile
          | some source => .ok source

section Runs

variable [Host]

/-- How the result of a run is reported. -/
def conclude (settings : Settings) : Except Failure Value → Ending × Output
  | .ok .null => (.code 0, .none)
  | .ok v =>
      match v.shownWithin Host.showing (Host.framesLeft .commandLine) with
      | .ok text => if v.isError then (.code 1, .err (text ++ "\n")) else (.code 0, .out (text ++ "\n"))
      | .error .stackFull => (.failure .tooDeep, .none)
  | .error (.malformed errors) =>
      (.code 1, .err ("parser errors:\n" ++ errorLines (errors.map SyntaxError.message) ++ "\n"))
  | .error .tooDeep =>
      (.code 1, .err (tooDeepLine (Host.complaint .commandLine) ++
        if settings.tracing then hostTrace else ""))
  | .error failure => (.failure failure, .none)

/-- Runs a source in a new session. -/
def runSource (settings : Settings) (source : String) : Report :=
  let (result, _) := (Session.new .default).runWithin (Host.callDepth .commandLine) settings source
  let (ending, output) := conclude settings result
  ⟨ending, output, settings⟩

/-- The whole command line. -/
def execute (settings : Settings) (stdin : String) (probe : String → FileAnswer)
    (arguments : List String) : Report :=
  match readArguments settings none arguments with
  | (settings, .error argument) =>
      ⟨.complaint ("Unexpected argument: " ++ argument), .none, settings⟩
  | (settings, .ok argument) =>
      match loadSource stdin probe (.ofArgument argument) with
      | .error ending => ⟨ending, .none, settings⟩
      | .ok source => runSource settings source

end Runs

end CommandLine

end Scriptlet
