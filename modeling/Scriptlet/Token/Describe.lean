import Scriptlet.Text.Quoted
import Scriptlet.Token

/-!
# Descriptions of tokens

A token is described by the name of its kind, its text in quotes and its position.
-/

namespace Scriptlet

/-- The description of a token. -/
def Token.describe (t : Token) : String :=
  "Tok(" ++ t.kind.name ++ ", " ++ Text.quoted t.text ++ ", " ++ toString t.position.line ++ ":" ++
    toString t.position.column ++ ")"

end Scriptlet
