import Scriptlet.Text.Blank

/-!
# Numerals in settings

How a setting is read as an integer.

**Form.**  Blanks may stand around the numeral, and one sign in front of it.  The digits may be of
any script, and single underscores may stand between them.  The numeral may have leading zeros but
no more than `longestSetting` digits.

**Blanks.**  Here the four ASCII separator controls are not blanks.
-/

namespace Scriptlet

namespace Text

/-- The code points of the digit zero in every script that has decimal digits; the other nine
follow each of them in order.  The table is that of version 14 of the Unicode standard. -/
def zeros : List Nat :=
  [0x30, 0x660, 0x6F0, 0x7C0, 0x966, 0x9E6, 0xA66, 0xAE6, 0xB66, 0xBE6, 0xC66, 0xCE6, 0xD66,
    0xDE6, 0xE50, 0xED0, 0xF20, 0x1040, 0x1090, 0x17E0, 0x1810, 0x1946, 0x19D0, 0x1A80, 0x1A90,
    0x1B50, 0x1BB0, 0x1C40, 0x1C50, 0xA620, 0xA8D0, 0xA900, 0xA9D0, 0xA9F0, 0xAA50, 0xABF0,
    0xFF10, 0x104A0, 0x10D30, 0x11066, 0x110F0, 0x11136, 0x111D0, 0x112F0, 0x11450, 0x114D0,
    0x11650, 0x116C0, 0x11730, 0x118E0, 0x11950, 0x11C50, 0x11D50, 0x11DA0, 0x16A60, 0x16AC0,
    0x16B50, 0x1D7CE, 0x1D7D8, 0x1D7E2, 0x1D7EC, 0x1D7F6, 0x1E140, 0x1E2F0, 0x1E950, 0x1FBF0]

/-- The value of a decimal digit of any script. -/
def digitValue? (c : Char) : Option Nat :=
  (zeros.find? fun first => first ≤ c.toNat && c.toNat ≤ first + 9).map fun first =>
    c.toNat - first

/-- The most digits a setting can have. -/
def longestSetting : Nat := 4300

/-- Digits with single underscores between them. -/
def digits? : List Char → Option (List Nat)
  | [] => none
  | [c] => (digitValue? c).map ([·])
  | c :: '_' :: rest => do
      let d ← digitValue? c
      let ds ← digits? rest
      return d :: ds
  | c :: rest => do
      let d ← digitValue? c
      let ds ← digits? rest
      return d :: ds

/-- The number that digits denote. -/
def number? (cs : List Char) : Option Nat := do
  let ds ← digits? cs
  if ds.length ≤ longestSetting then
    return ds.foldl (fun n d => 10 * n + d) 0
  else
    none

/-- The blanks around a setting. -/
def isSettingBlank (c : Char) : Bool :=
  isBlank c && !('\x1c' ≤ c && c ≤ '\x1f')

/-- The integer that a setting denotes. -/
def integer? (text : String) : Option Int :=
  match trim isSettingBlank text.toList with
  | '+' :: rest => (number? rest).map Int.ofNat
  | '-' :: rest => (number? rest).map fun n => -Int.ofNat n
  | rest => (number? rest).map Int.ofNat

end Text

end Scriptlet
