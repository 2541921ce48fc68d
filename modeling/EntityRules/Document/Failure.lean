import EntityRules.Encode.Fault
import EntityRules.Json.Canonical
import EntityRules.Json.Reader

/-! What can go wrong with a file that holds a document. -/

namespace EntityRules

/-- Why the text of a file cannot be had. -/
inductive FileTrouble where
  | absent
  /-- A part of the name before its last one is a file. -/
  | throughFile
  | isFolder
  | nameTooLong
  | nullCharacter
  /-- The file is there, and its text cannot be read. -/
  | unreadable
deriving DecidableEq, Repr

/-- Why a file is of no use. -/
inductive DocumentTrouble where
  | unsupported (name suffix : String)
  | absent (file : String)
  | unreadable (file : String)
  /-- The root of the document has another type. -/
  | notMapping (file type : String)
  | invalidRules (source : String) (why : List Fault)
  | invalidState (source : String)
deriving DecidableEq, Repr

/-- What is not handled anywhere. -/
inductive Crash where
  /-- A value has a shape that cannot be used. -/
  | shape
  /-- A number is too large. -/
  | size
  | notAPair
  /-- A request was put together, and then refused as a record. -/
  | refused (record : String) (why : List Fault)
  /-- A cache would have room for nothing. -/
  | noRoom
  | file (why : FileTrouble)
  /-- Lists and objects of a file stand inside each other too deeply. -/
  | tooDeep
  /-- A whole number in a file has too many digits. -/
  | tooLong
  /-- A value in a file cannot be built from its text. -/
  | unbuilt
  /-- The console cannot read what it is to show. -/
  | markup
  /-- A part of a query cannot be written. -/
  | unwritable (why : Json.PrintTrouble)
deriving DecidableEq, Repr

/-- Why the text of a file is not read. -/
inductive ReadFailure where
  | malformed
  | crash (why : Crash)
deriving DecidableEq, Repr

def ReadFailure.ofJson : Json.ReadTrouble → ReadFailure
  | .malformed => .malformed
  | .tooDeep => .crash .tooDeep
  | .tooLong => .crash .tooLong

inductive LoadFailure where
  | trouble (why : DocumentTrouble)
  | crash (why : Crash)
deriving DecidableEq, Repr

namespace DocumentTrouble

def message : DocumentTrouble → String
  | unsupported name _ => "Unsupported document type: " ++ name
  | absent file => "Document not found: " ++ file
  | unreadable file => "Document could not be parsed: " ++ file
  | notMapping file _ => "Document " ++ file ++ " must have a mapping as its root element"
  | invalidRules _ _ => "Rule document has an invalid shape"
  | invalidState source => "Game state file " ++ source ++ " has an invalid shape"

/-- What goes with the message. -/
def details : DocumentTrouble → Members Json
  | unsupported _ suffix => [("suffix", .str suffix)]
  | absent _ => []
  | unreadable _ => [("error", .str "not a document")]
  | notMapping _ type => [("root_type", .str type)]
  | invalidRules source why => ("source", .str source) :: Fault.report why
  | invalidState _ => [("error", .str "not a game state")]

end DocumentTrouble

end EntityRules
