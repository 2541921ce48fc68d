import EntityRules.Json.Canonical
import EntityRules.Text.Half

/-! Documents with halves of surrogate pairs in their texts, as they are written. -/

namespace EntityRules.Json

mutual

/-- A document with its names changed. -/
def mapNames (f : String → String) : Json → Json
  | .arr items => .arr (mapItems f items)
  | .obj ms => .obj (mapMembers f ms)
  | j => j

def mapItems (f : String → String) : List Json → List Json
  | [] => []
  | j :: rest => mapNames f j :: mapItems f rest

def mapMembers (f : String → String) : Members Json → Members Json
  | [] => []
  | (n, j) :: rest => (f n, mapNames f j) :: mapMembers f rest

end

/-- A record as a document whose names can be written. -/
def withWritableNames (j : Json) : Json :=
  mapNames (fun name => String.ofList (Text.replaceHalves name.toList)) j

/-- The third digit of a half that opens a pair, given that of one that closes a pair. -/
def openingDigit (c : Char) : Char :=
  if c = 'c' then '8' else if c = 'd' then '9' else if c = 'e' then 'a' else 'b'

/-- Writes the escapes of characters that stand for halves as the escapes of the halves. -/
def halvesWritten : List Char → List Char
  | '\\' :: 'u' :: 'd' :: 'b' :: '0' :: '0' :: '\\' :: 'u' :: 'd' :: c :: rest =>
    '\\' :: 'u' :: 'd' :: openingDigit c :: halvesWritten rest
  | '\\' :: 'u' :: 'd' :: 'b' :: '0' :: '1' :: '\\' :: 'u' :: 'd' :: c :: rest =>
    '\\' :: 'u' :: 'd' :: c :: halvesWritten rest
  | '\\' :: c :: rest => '\\' :: c :: halvesWritten rest
  | c :: rest => c :: halvesWritten rest
  | [] => []

/-- The text of a document as it is written, without spaces. -/
def written (j : Json) : String := String.ofList (halvesWritten (canonicalChars j))

end EntityRules.Json
