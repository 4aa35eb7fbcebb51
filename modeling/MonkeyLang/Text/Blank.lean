/-! Blank characters. A session ignores them at both ends of a line, and a numeral may be surrounded
by most of them. -/

namespace MonkeyLang.Text

/-- The white space of Unicode together with the four ASCII separators. -/
def isBlank (c : Char) : Bool :=
  let n := c.toNat
  (0x09 ≤ n && n ≤ 0x0D) || (0x1C ≤ n && n ≤ 0x20) || n == 0x85 || n == 0xA0 || n == 0x1680 ||
    (0x2000 ≤ n && n ≤ 0x200A) || n == 0x2028 || n == 0x2029 || n == 0x202F || n == 0x205F ||
    n == 0x3000

/-- The four ASCII separators are blank in a line of text and yet no part of a numeral's margin. -/
def isSeparator (c : Char) : Bool :=
  let n := c.toNat
  0x1C ≤ n && n ≤ 0x1F

/-- The text between its first and its last character that is not blank. -/
def trim (text : List Char) : List Char :=
  ((text.dropWhile isBlank).reverse.dropWhile isBlank).reverse

end MonkeyLang.Text
