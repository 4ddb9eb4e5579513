import Scriptlet.Scanner
import Scriptlet.Text.Joined
import Scriptlet.Text.Place

/-!
# Highlighting

A line of source is cut into fragments, each with a style.

**Groups.**  Every token belongs to a group, and a group has a style.  What stands between tokens
has no style.

**Columns.**  The place of a fragment is computed from the column of its token, so a text that holds
a newline is cut as if the columns went on counting from the start of the text.
-/

namespace Scriptlet

/-- The groups of tokens that look alike. -/
inductive Group where
  | keyword
  | boolean
  | number
  | string
  | identifier
  | builtin
  | operator
  | punctuation
  | error
  deriving DecidableEq, Repr

namespace Group

/-- The style of a group. -/
def style : Group → String
  | keyword => "bold ansicyan"
  | boolean => "ansicyan"
  | number => "ansimagenta"
  | string => "ansigreen"
  | identifier => ""
  | builtin => "bold ansiyellow"
  | operator => ""
  | punctuation => ""
  | error => "bold ansired"

/-- The group of a token, given the names of the built-in functions. -/
def ofToken (builtins : List String) (t : Token) : Group :=
  match t.kind with
  | .trueWord | .falseWord => boolean
  | .functionWord | .letWord | .ifWord | .elseWord | .returnWord => keyword
  | .int => number
  | .string => string
  | .ident => if builtins.contains t.text then builtin else identifier
  | .assign | .plus | .minus | .bang | .asterisk | .slash | .lt | .gt | .eq | .notEq => operator
  | .comma | .semicolon | .colon | .lparen | .rparen | .lbrace | .rbrace | .lbracket
  | .rbracket => punctuation
  | .illegal | .eof => error

end Group

/-- How many characters of the source a token takes up. -/
def Token.width (t : Token) : Nat :=
  if t.kind = .string then t.text.length + 2 else t.text.length

/-- A piece of text with its style. -/
structure Fragment where
  style : String
  text : String
  deriving DecidableEq, Repr

namespace Fragment

/-- The characters from one place up to another. -/
def slice (cs : List Char) (start stop : Nat) : String :=
  String.ofList ((cs.drop start).take (stop - start))

/-- The text between tokens, if there is any. -/
def gap (cs : List Char) (start stop : Nat) : List Fragment :=
  if start < stop then [⟨"", slice cs start stop⟩] else []

/-- The fragments from a place on, for the tokens that follow it. -/
def ofTokens (builtins : List String) (cs : List Char) (place : Nat) :
    List Token → List Fragment
  | [] => gap cs place cs.length
  | t :: rest =>
      if t.kind = .eof then gap cs place cs.length
      else
        let start := t.position.column - 1
        let stop := start + t.width
        gap cs place start ++
          ⟨(Group.ofToken builtins t).style, slice cs start stop⟩ :: ofTokens builtins cs stop rest

/-- The fragments of a line. -/
def ofLine (builtins : List String) (text : String) : List Fragment :=
  if text = "" then [⟨"", ""⟩] else ofTokens builtins text.toList 0 (tokenize text)

/-- The lines of a text. -/
def linesOf (text : String) : List String :=
  (Text.pieces '\n' text.toList).map String.ofList

/-- The fragments of one line of a text, lines counted from zero; after the last there is an empty
one. -/
def ofTextLine (builtins : List String) (text : String) (line : Nat) : List Fragment :=
  match (linesOf text)[line]? with
  | none => [⟨"", ""⟩]
  | some piece => ofLine builtins piece

/-- The fragments of the line that an index points to, if it points to one. -/
def atIndex? (builtins : List String) (text : String) (index : Int) : Option (List Fragment) :=
  (Text.place? (linesOf text).length index).map (ofTextLine builtins text)

end Fragment

end Scriptlet
