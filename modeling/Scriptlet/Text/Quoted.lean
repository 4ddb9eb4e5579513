import Scriptlet.Text.Printable

/-!
# Quoted text

A text is shown between quotes so that every character of it can be made out.

**Quotes.**  Single quotes, or double quotes if the text has single quotes and no double ones.

**Escapes.**  The quote in use and the backslash have a backslash in front.  Newline, return and tab
have letters; any other character that is not printable is shown by its code point in two, four or
eight hexadecimal digits.
-/

namespace Scriptlet

namespace Text

/-- A number in hexadecimal digits, filled up with zeros in front. -/
def hex (width n : Nat) : List Char :=
  let digits := Nat.toDigits 16 n
  List.replicate (width - digits.length) '0' ++ digits

/-- How one character is shown between quotes. -/
def escape (quote c : Char) : List Char :=
  if c = quote || c = '\\' then ['\\', c]
  else if c = '\n' then ['\\', 'n']
  else if c = '\r' then ['\\', 'r']
  else if c = '\t' then ['\\', 't']
  else if isPrintable c then [c]
  else if c.toNat < 0x100 then '\\' :: 'x' :: hex 2 c.toNat
  else if c.toNat < 0x10000 then '\\' :: 'u' :: hex 4 c.toNat
  else '\\' :: 'U' :: hex 8 c.toNat

/-- The quote for a text. -/
def quoteFor (cs : List Char) : Char :=
  if cs.contains '\x27' && !cs.contains '"' then '"' else '\x27'

/-- A text between quotes. -/
def quoted (text : String) : String :=
  let quote := quoteFor text.toList
  String.ofList (quote :: text.toList.flatMap (escape quote) ++ [quote])

end Text

end Scriptlet
