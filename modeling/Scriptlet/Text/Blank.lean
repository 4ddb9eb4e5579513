/-!
# Blanks

The characters that count as blank around and between the words of a command, and what is done
with them.
-/

namespace Scriptlet

namespace Text

/-- Whether a character is blank: white space of Unicode and the ASCII separator controls. -/
def isBlank (c : Char) : Bool :=
  let n := c.toNat
  (0x9 ≤ n && n ≤ 0xD) || (0x1C ≤ n && n ≤ 0x20) || n == 0x85 || n == 0xA0 || n == 0x1680 ||
    (0x2000 ≤ n && n ≤ 0x200A) || n == 0x2028 || n == 0x2029 || n == 0x202F || n == 0x205F ||
    n == 0x3000

/-- Takes away characters of a class at both ends. -/
def trim (class_ : Char → Bool) (cs : List Char) : List Char :=
  ((cs.dropWhile class_).reverse.dropWhile class_).reverse

/-- The first word of a text, and what follows it after blanks. -/
def splitWord (cs : List Char) : List Char × List Char :=
  (cs.takeWhile (!isBlank ·), (cs.dropWhile (!isBlank ·)).dropWhile isBlank)

end Text

end Scriptlet
