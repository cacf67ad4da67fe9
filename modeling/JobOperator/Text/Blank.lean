/-!
Blank characters: those with the Unicode property `White_Space`. The property is stable, so the table
does not depend on a version of Unicode.
-/

namespace JobOperator.Text

/-- Whether a character has the property `White_Space`. -/
def isBlank (c : Char) : Bool :=
  let n := c.toNat
  (0x09 ≤ n && n ≤ 0x0D) || n == 0x20 || n == 0x85 || n == 0xA0 || n == 0x1680 ||
    (0x2000 ≤ n && n ≤ 0x200A) || n == 0x2028 || n == 0x2029 || n == 0x202F || n == 0x205F ||
    n == 0x3000

/-- The text after its leading blanks. -/
def trimStart (text : List Char) : List Char := text.dropWhile isBlank

/-- Whether a text holds blanks only. -/
def allBlank (text : String) : Bool := text.toList.all isBlank

end JobOperator.Text
