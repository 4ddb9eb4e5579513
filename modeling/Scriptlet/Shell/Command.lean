import Scriptlet.Text.Blank
import Scriptlet.Text.Place

/-!
# Shell commands

A line whose first character that is not blank is a slash is a command to the shell.

**Words.**  The command word ends at the next blank, and what follows is its argument.  A word the
shell does not know is still a command.

**Completion.**  A text that starts with a slash is completed to the commands it is the beginning
of.
-/

namespace Scriptlet

/-- What is asked about host traces. -/
inductive TraceRequest where
  | on
  | off
  | toggle
  | unclear
  deriving DecidableEq, Repr

/-- The commands of the shell. -/
inductive Command where
  | clear
  | tree
  | trace (request : TraceRequest)
  | reset
  | unknown (word : String)
  deriving DecidableEq, Repr

/-- The words that ask for host traces and those that refuse them, in any case of their letters.
No character outside ASCII has one of these letters as its lower case. -/
def TraceRequest.ofArgument (argument : String) : TraceRequest :=
  match argument.toLower with
  | "on" | "1" | "true" | "yes" => on
  | "off" | "0" | "false" | "no" => off
  | "" => toggle
  | _ => unclear

namespace Command

/-- The command with a given word and argument. -/
def ofWord (word argument : String) : Command :=
  match word with
  | "/clear" => clear
  | "/ast" => tree
  | "/py-traceback" => trace (.ofArgument argument)
  | "/reset" => reset
  | word => unknown word

/-- The command that a line is, if it is one. -/
def ofLine? (line : String) : Option Command :=
  let cs := Text.trim Text.isBlank line.toList
  if cs.head? = some '/' then
    let (word, argument) := Text.splitWord cs
    some (ofWord (String.ofList word) (String.ofList argument))
  else
    none

/-- The command words with what they do. -/
def summary : List (String × String) :=
  [("/ast", "Toggle printing the syntax tree of each input"),
    ("/clear", "Clear the terminal screen"),
    ("/py-traceback", "Toggle Python traceback on errors"),
    ("/reset", "Reset the REPL environment")]

end Command

/-- A way to complete what was typed: the whole word, where it starts counted from the cursor, and
what the command does. -/
structure Completion where
  word : String
  start : Int
  description : String
  deriving DecidableEq, Repr

/-- What stands before a cursor; one below zero counts from the end. -/
def beforeCursor (text : String) (cursor : Int) : List Char :=
  text.toList.take (Text.cutEnd text.length cursor)

/-- The ways to complete the text before the cursor. -/
def completions (before : List Char) : List Completion :=
  if before.head? = some '/' then
    (Command.summary.filter fun entry => before.isPrefixOf entry.1.toList).map fun entry =>
      ⟨entry.1, -before.length, entry.2⟩
  else
    []

end Scriptlet
