/-! Blank characters: the separators and the control characters that count as white space. -/

namespace EntityRules.Text

/-- The blanks among the ASCII characters: tab to carriage return, and space. -/
def isAsciiBlank (c : Char) : Bool := (9 ≤ c.val && c.val ≤ 13) || c.val = 32

/-- The blanks among all characters. -/
def isBlank (c : Char) : Bool :=
  isAsciiBlank c || c.val = 0x85 || c.val = 0xA0 || c.val = 0x1680 ||
  (0x2000 ≤ c.val && c.val ≤ 0x200A) || c.val = 0x2028 || c.val = 0x2029 || c.val = 0x202F ||
  c.val = 0x205F || c.val = 0x3000

def isAscii (c : Char) : Bool := c.val < 128

/-- Drops the characters of a class from both ends of a text. -/
def trim (cls : Char → Bool) (text : List Char) : List Char :=
  ((text.dropWhile cls).reverse.dropWhile cls).reverse

end EntityRules.Text
