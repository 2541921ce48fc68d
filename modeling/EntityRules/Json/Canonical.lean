import EntityRules.Json
import EntityRules.Number.Format
import EntityRules.Number.Reading
import EntityRules.Text.Quoted

/-! The canonical text of a document: members sorted by name, no spaces, ASCII characters only. -/

namespace EntityRules.Json

open Text

/-- A character above the range of one unit stands as the two halves of a pair. -/
def unitEscape (n : Nat) : List Char :=
  if n < 0x10000 then '\\' :: 'u' :: hex 4 n
  else
    '\\' :: 'u' :: hex 4 (0xD800 + (n - 0x10000) / 0x400) ++
      '\\' :: 'u' :: hex 4 (0xDC00 + (n - 0x10000) % 0x400)

/-- How a character stands inside a text of a document. -/
def escapedChar (c : Char) : List Char :=
  if c = '"' then ['\\', '"']
  else if c = '\\' then ['\\', '\\']
  else if c = '\n' then ['\\', 'n']
  else if c = '\r' then ['\\', 'r']
  else if c = '\t' then ['\\', 't']
  else if c = '\x0c' then ['\\', 'f']
  else if c = '\x08' then ['\\', 'b']
  else if 32 ≤ c.toNat ∧ c.toNat < 127 then [c]
  else unitEscape c.toNat

def textChars (s : String) : List Char := '"' :: s.toList.flatMap escapedChar ++ ['"']

def intChars (n : Int) : List Char :=
  if n < 0 then '-' :: Nat.toDigits 10 n.natAbs else Nat.toDigits 10 n.natAbs

/-- Puts commas between texts. -/
def joined : List (List Char) → List Char
  | [] => []
  | [t] => t
  | t :: rest => t ++ ',' :: joined rest

/-- Puts a member before the first one whose name does not come before its own. -/
def insertSorted {α : Type} (m : String × α) : Members α → Members α
  | [] => [m]
  | other :: rest => if m.1 ≤ other.1 then m :: other :: rest else other :: insertSorted m rest

/-- Members sorted by name; those of one name keep their order. -/
def sorted {α : Type} : Members α → Members α
  | [] => []
  | m :: rest => insertSorted m (sorted rest)

def memberChars (m : String × List Char) : List Char := textChars m.1 ++ ':' :: m.2

mutual

def canonicalChars : Json → List Char
  | .null => ['n', 'u', 'l', 'l']
  | .bool true => ['t', 'r', 'u', 'e']
  | .bool false => ['f', 'a', 'l', 's', 'e']
  | .int n => intChars n
  | .float x => (Number.text Number.document x).toList
  | .str s => textChars s
  | .arr items => '[' :: joined (canonicalItems items) ++ [']']
  | .obj members =>
    '\x7b' :: joined ((sorted (canonicalMembers members)).map memberChars) ++ ['\x7d']

def canonicalItems : List Json → List (List Char)
  | [] => []
  | j :: rest => canonicalChars j :: canonicalItems rest

def canonicalMembers : Members Json → Members (List Char)
  | [] => []
  | (name, j) :: rest => (name, canonicalChars j) :: canonicalMembers rest

end

/-- The canonical text of a document, however long its numbers are and however deep it goes. -/
def canonical (j : Json) : String := String.ofList (canonicalChars j)

/-- Why a document has no text. -/
inductive PrintTrouble where
  /-- It goes too deep to be dumped. -/
  | layered
  /-- Lists and objects stand inside each other too deeply. -/
  | tooDeep
  /-- A whole number has too many digits. -/
  | tooLong
deriving DecidableEq, Repr

/-- Whether a whole number has more than some count of digits. -/
def exceeds (digits : Nat) (n : Int) : Bool := Nat.pow 10 digits ≤ n.natAbs

/-- Whether a whole number has too many digits to be written. -/
@[irreducible]
def isLong (n : Int) : Bool := exceeds Number.mostDigits n

mutual

/-- What comes first, in the order of writing, of what keeps a document from being written with some
levels inside each other. -/
def obstacle : Nat → Json → Option PrintTrouble
  | _, .int n => if isLong n then some .tooLong else none
  | 0, .arr _ | 0, .obj _ => some .tooDeep
  | room + 1, .arr items => (obstaclesOfItems room items).findSome? id
  | room + 1, .obj members => (sorted (obstaclesOfMembers room members)).findSome? (·.2)
  | _, _ => none

def obstaclesOfItems (room : Nat) : List Json → List (Option PrintTrouble)
  | [] => []
  | j :: rest => obstacle room j :: obstaclesOfItems room rest

def obstaclesOfMembers (room : Nat) : Members Json → Members (Option PrintTrouble)
  | [] => []
  | (name, j) :: rest => (name, obstacle room j) :: obstaclesOfMembers room rest

end

/-- Writes the canonical text of a document, with at most `room` levels inside each other. -/
def print (room : Nat) (j : Json) : Except PrintTrouble String :=
  match j.obstacle room with
  | some why => .error why
  | none => .ok j.canonical

end EntityRules.Json
