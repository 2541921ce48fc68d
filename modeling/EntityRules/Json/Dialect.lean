/-! The two dialects of documents, as far as they differ in single characters. -/

namespace EntityRules.Json

/-- How the text of a document is read: as JSON, or as the part of YAML that is written like it. -/
inductive Dialect where
  | json
  | yaml
deriving DecidableEq, Repr

/-- Characters that end a line of YAML. -/
def isBreak (c : Char) : Bool :=
  c = '\n' || c = '\r' || c = '\x85' || c = '\u2028' || c = '\u2029'

/-- Blanks within a line. -/
def isInlineBlank (c : Char) : Bool := c = ' ' || c = '\t'

/-- Whether a file in YAML may hold a character. -/
def isPermitted (c : Char) : Bool :=
  let n := c.toNat
  c = '\t' || c = '\n' || c = '\r' || (0x20 ≤ n && n ≤ 0x7E) || n = 0x85 ||
  (0xA0 ≤ n && n ≤ 0xD7FF) || (0xE000 ≤ n && n ≤ 0xFFFD) || 0x10000 ≤ n

namespace Dialect

/-- Blanks between the parts of a document. A tab is none in YAML. -/
def isSpace : Dialect → Char → Bool
  | json, c => c = ' ' || c = '\t' || c = '\n' || c = '\r'
  | yaml, c => c = ' ' || isBreak c

def skipSpace (d : Dialect) (text : List Char) : List Char := text.dropWhile d.isSpace

/-- How many levels there may be inside each other. -/
def deepest : Dialect → Nat
  | json => 991
  | yaml => 492

/-- Whether a value without parts is a level of its own, as lists and objects are. -/
def countsLeaves : Dialect → Bool
  | json => false
  | yaml => true

end Dialect

end EntityRules.Json
