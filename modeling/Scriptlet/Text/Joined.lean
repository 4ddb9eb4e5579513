/-!
# Joined texts

Texts one after the other with a separator between each two, and a text cut at a separator.
-/

namespace Scriptlet

namespace Text

/-- Texts with a separator between each two. -/
def joined (separator : String) : List String → String
  | [] => ""
  | [text] => text
  | text :: texts => text ++ separator ++ joined separator texts

/-- The pieces of a text between the places where a character stands; always at least one. -/
def pieces (separator : Char) : List Char → List (List Char)
  | [] => [[]]
  | c :: cs =>
      if c = separator then [] :: pieces separator cs
      else
        match pieces separator cs with
        | [] => [[c]]
        | piece :: rest => (c :: piece) :: rest

end Text

end Scriptlet
