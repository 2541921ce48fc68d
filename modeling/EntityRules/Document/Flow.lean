import EntityRules.Document

/-! A reader for the program itself: YAML as far as it is written like JSON, without block style. -/

namespace EntityRules.Flow

mutual

/-- Whether a document holds a whole number with too many digits. -/
def hasLong : Json → Bool
  | .int n => Json.isLong n
  | .arr items => hasLongItem items
  | .obj ms => hasLongMember ms
  | _ => false

def hasLongItem : List Json → Bool
  | [] => false
  | j :: rest => hasLong j || hasLongItem rest

def hasLongMember : Members Json → Bool
  | [] => false
  | (_, j) :: rest => hasLong j || hasLongMember rest

end

/-- Reads a text. A mark of the order of bytes may stand at its start; a text of blanks is the empty
document, and numbers are looked at when everything else was read. -/
def read : Document.YamlReader := fun text =>
  let cs := match text.toList with
    | '\uFEFF' :: rest => rest
    | cs => cs
  if !cs.all Json.isPermitted then .error .malformed
  else if cs.all Json.Dialect.yaml.isSpace then .ok .null
  else
    match Json.read .yaml (String.ofList cs) with
    | .ok j => if hasLong j then .error (.crash .tooLong) else .ok j
    | .error why => .error (.ofJson why)

end EntityRules.Flow
