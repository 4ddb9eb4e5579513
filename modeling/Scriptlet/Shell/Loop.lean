import Scriptlet.Shell.Basic

/-!
# The shell loop

Lines are typed into a buffer until it is complete, and then submitted.

**Completeness.**  A buffer is complete if it starts with a slash or has no bracket left open.  If
it is not complete, pressing enter adds a newline to it.

**Clean-up.**  Invisible characters are taken out of a submission before anything looks at it, and
one with only blanks left is passed over.

**The end.**  The loop ends when the input ends, and when a submission fails in a way the shell does
not handle.
-/

namespace Scriptlet

/-- What a token adds to the number of open brackets. -/
def TokenKind.opening : TokenKind → Int
  | .lparen | .lbracket | .lbrace => 1
  | .rparen | .rbracket | .rbrace => -1
  | _ => 0

/-- The number of brackets that are opened in a text and not closed. -/
def openDepth (text : String) : Int :=
  (tokenize text).foldr (fun t depth => t.kind.opening + depth) 0

/-- Characters that cannot be seen, among them the carriage return. -/
def isInvisible (c : Char) : Bool :=
  c == '\u200b' || c == '\u200c' || c == '\u200d' || c == '\ufeff' || c == '\u00a0' || c == '\r'

/-- A text without its invisible characters. -/
def visible (text : String) : String :=
  String.ofList (text.toList.filter (!isInvisible ·))

/-- Whether a text holds nothing but blanks. -/
def isAllBlank (text : String) : Bool :=
  text.toList.all Text.isBlank

namespace Shell

/-- What happens at the prompt. -/
inductive Event where
  /-- A text is typed and enter is pressed. -/
  | typed (text : String)
  | interrupt
  | endOfInput
  deriving DecidableEq, Repr

/-- How a prompt was answered; an interrupt and the end lose what was typed so far. -/
inductive Answer where
  | submitted (text : String)
  | interrupted (buffer : String)
  | ended (buffer : String)
  deriving DecidableEq, Repr

/-- One round of the loop. -/
structure Turn where
  prompt : String
  answer : Answer
  output : Output
  deriving DecidableEq, Repr

/-- Whether enter submits a buffer. -/
def isComplete (buffer : String) : Bool :=
  buffer.toList.head? = some '/' || openDepth buffer ≤ 0

/-- What is written before the first prompt. -/
def welcome : Output :=
  .out "Welcome to the Monkey programming language! Ctrl-D to exit, / for commands\n"

/-- Answers a submission. -/
def accept [Host] (s : Shell) (text : String) : Response :=
  if isAllBlank (visible text) then ⟨s, .none, none⟩ else s.respond (visible text)

/-- The loop, from a shell with a text in the buffer: its turns, and the failure that ended it, if
one did. -/
def loop [Host] (s : Shell) (buffer : String) : List Event → List Turn × Option Failure
  | [] => ([⟨s.settings.promptText, .ended buffer, .out "\n"⟩], none)
  | .endOfInput :: _ => ([⟨s.settings.promptText, .ended buffer, .out "\n"⟩], none)
  | .interrupt :: events =>
      let (turns, failure) := s.loop "" events
      (⟨s.settings.promptText, .interrupted buffer, .out "KeyboardInterrupt\n"⟩ :: turns, failure)
  | .typed text :: events =>
      if isComplete (buffer ++ text) then
        let response := s.accept (buffer ++ text)
        let turn := ⟨s.settings.promptText, .submitted (buffer ++ text), response.output⟩
        match response.failure with
        | some failure => ([turn], some failure)
        | none =>
            let (turns, failure) := response.shell.loop "" events
            (turn :: turns, failure)
      else
        s.loop (buffer ++ text ++ "\n") events

end Shell

end Scriptlet
