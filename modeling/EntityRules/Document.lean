import EntityRules.Document.Failure
import EntityRules.Document.FileName
import EntityRules.Json.Reader

/-! Documents in files: the suffix of a name tells how a text is read, and the root is an object. -/

namespace EntityRules.Document

/-- How a text in YAML is read. -/
abbrev YamlReader := String → Except ReadFailure Json

/-- Reads the text of a file. -/
def parse (yaml : YamlReader) (format : FileFormat) (text : String) : Except ReadFailure Json :=
  match format with
  | .json => (Json.read .json text).mapError .ofJson
  | .yaml => yaml text

/-- What becomes of a text that is not read. -/
def failure (name : FileName) : ReadFailure → LoadFailure
  | .malformed => .trouble (.unreadable name.text)
  | .crash why => .crash why

/-- What becomes of a file that cannot be opened. -/
def closed (name : FileName) : FileTrouble → LoadFailure
  | .absent => .trouble (.absent name.text)
  | why => .crash (.file why)

/-- Reads the document in a file; an empty document has no members. -/
def read (yaml : YamlReader) (file : String) (text : Except FileTrouble String) :
    Except LoadFailure (Members Json) :=
  let name := FileName.ofString file
  match name.format?, text with
  | none, _ => .error (.trouble (.unsupported name.last name.suffix))
  | some _, .error why => .error (closed name why)
  | some format, .ok text =>
    match parse yaml format text with
    | .error why => .error (failure name why)
    | .ok .null => .ok []
    | .ok (.obj ms) => .ok ms
    | .ok j => .error (.trouble (.notMapping name.text j.typeName))

end EntityRules.Document
