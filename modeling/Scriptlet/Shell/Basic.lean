import Scriptlet.Host
import Scriptlet.Session
import Scriptlet.Shell.Command
import Scriptlet.Shell.Output

/-!
# The shell

A line is either a command to the shell or a source to be run, and the shell answers it with output.

**Sources.**  Syntax errors are listed and nothing runs.  Otherwise the outline is shown if that
is asked for, the program runs, and its value is shown unless it is null.  Errors are values and
shown like any other.

**Failures.**  Nesting calls too deeply is reported.  A fault of the parser, an outline or a value too
deep to be shown and a bad limit are not the shell's to handle: they are handed to its caller, with what
was written before them.  An outline is laid out before anything runs, and on what the host has left of its
stack under the base limit.
-/

namespace Scriptlet

/-- The state of a shell. -/
structure Shell where
  session : Session
  showTree : Bool
  settings : Settings
  /-- How often the session was replaced by a new one. -/
  resets : Nat

namespace Shell

/-- A new shell. -/
def new (settings : Settings) : Shell :=
  ⟨.new .default, false, settings, 0⟩

/-- The answer to a line. -/
structure Response where
  shell : Shell
  output : Output
  failure : Option Failure

/-- Whether something is on. -/
def onOff (enabled : Bool) : String :=
  if enabled then "on" else "off"

/-- Turns host traces on or off, and says so. -/
def setTracing (s : Shell) (enabled : Bool) : Shell × Output :=
  ({ s with settings := s.settings.setTracing enabled },
    .out ("Python traceback: " ++ onOff enabled ++ "\n"))

/-- Carries out a command. -/
def perform (s : Shell) : Command → Shell × Output
  | .clear => (s, .clear)
  | .tree =>
      ({ s with showTree := !s.showTree }, .out ("Syntax tree: " ++ onOff (!s.showTree) ++ "\n"))
  | .trace .on => s.setTracing true
  | .trace .off => s.setTracing false
  | .trace .toggle => s.setTracing (!s.settings.tracing)
  | .trace .unclear => (s, .err "Usage: /py-traceback [on|off]\n")
  | .reset =>
      ({ s with session := .new .default, resets := s.resets + 1 }, .out "Environment reset.\n")
  | .unknown word => (s, .err ("Unknown command: " ++ word ++ "\n"))

section Runs

variable [Host]

/-- What is written about the result of a run. -/
def resultOutput (settings : Settings) : Except Failure Value → Output
  | .ok .null => .none
  | .ok v =>
      match v.shownWithin Host.showing (Host.framesLeft .shell) with
      | .ok text => .out (text ++ "\n")
      | .error .stackFull => .none
  | .error .tooDeep =>
      .err (tooDeepLine (Host.complaint .shell) ++
        if settings.tracing then "\nPython traceback:\n" ++ hostTrace else "")
  | .error _ => .none

/-- The failure of a run that the shell does not handle. -/
def unhandled? : Except Failure Value → Option Failure
  | .ok .null => none
  | .ok v =>
      match v.shownWithin Host.showing (Host.framesLeft .shell) with
      | .ok _ => none
      | .error .stackFull => some .tooDeep
  | .error .tooDeep => none
  | .error failure => some failure

/-- What is written about a program before it runs. -/
def treeOutput (s : Shell) (p : Program) : Except Failure Output :=
  if s.showTree then
    if Host.fitsTree p.outline then .ok (.out p.outline.print) else .error .tooDeep
  else .ok .none

/-- Runs a program. -/
def runProgram (s : Shell) (p : Program) : Response :=
  match s.treeOutput p with
  | .error failure => ⟨s, .none, some failure⟩
  | .ok tree =>
      let (result, session) := s.session.runProgramWithin (Host.callDepth .shell) s.settings p
      ⟨{ s with session := session }, tree ++ resultOutput s.settings result, unhandled? result⟩

/-- Runs a source. -/
def submit (s : Shell) (source : String) : Response :=
  match parse source with
  | .error fault => ⟨s, .none, some (.ofFault fault)⟩
  | .ok parsed =>
      if parsed.errors = [] then s.runProgram parsed.program
      else ⟨s, .err (errorLines (parsed.errors.map SyntaxError.message) ++ "\n"), none⟩

/-- Answers a line. -/
def respond (s : Shell) (line : String) : Response :=
  match Command.ofLine? line with
  | some command =>
      let (shell, output) := s.perform command
      ⟨shell, output, none⟩
  | none => s.submit line

end Runs

end Shell

end Scriptlet
