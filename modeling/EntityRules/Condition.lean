import EntityRules.Decode
import EntityRules.Encode

/-! Conditions: comparisons, compositions, named functions, context checks, and unknown ones. -/

namespace EntityRules

/-- What conditions of all types carry, with the members that no field of theirs takes. -/
structure Condition.Common where
  id : Option String
  description : Option String
  priority : Option Float
  extras : Members Json

/-- Names of operators, functions and categories are kept as they were written; an unknown name is
found when the condition is evaluated. -/
inductive Condition where
  | simple (common : Condition.Common) (path operator : String) (value : Json)
  | compound (common : Condition.Common) (operator : String) (children : List Condition)
  | function (common : Condition.Common) (name : String) (parameters : Members Json)
  | contextual (common : Condition.Common) (category : String) (data : Members Json)
  | unknown (common : Condition.Common) (type : Json)

namespace Condition

/-- The message about a document that is no condition. -/
def malformed : String := "Condition document could not be parsed"

/-- The four known types of conditions; every other document is of unknown type. -/
inductive Tag where
  | simple
  | compound
  | function
  | contextual
  | unknown
deriving DecidableEq, Repr

/-- The name of a type in documents and in the paths of faults. -/
def Tag.name : Tag → String
  | simple => "simple"
  | compound => "compound"
  | function => "function"
  | contextual => "contextual"
  | unknown => "unknown"

def Tag.ofType (type : Json) : Tag :=
  match type with
  | .str s =>
    if s = "simple" then .simple
    else if s = "compound" then .compound
    else if s = "function" then .function
    else if s = "contextual" then .contextual
    else .unknown
  | _ => .unknown

/-- The type of the condition that a document describes. -/
def Tag.ofDocument (j : Json) : Tag := Tag.ofType ((j.member? "type").getD .null)

/-- The members that are fields of a condition of a given type. -/
def Tag.fields : Tag → List String
  | simple => ["id", "description", "priority", "type", "field", "operator", "value"]
  | compound => ["id", "description", "priority", "type", "operator", "conditions"]
  | function => ["id", "description", "priority", "type", "function_name", "parameters"]
  | contextual => ["id", "description", "priority", "type", "context_type", "context_data"]
  | unknown => ["id", "description", "priority", "type"]

open Decode

def commonFrom (tag : Tag) (ms : Members Json) : Decoded Common :=
  (fun id description priority =>
    { id, description, priority, extras := ms.filter fun m => m.1 ∉ tag.fields }) <$>
    field ms ["id"] (optional text) none <*>
    field ms ["description"] (optional text) none <*>
    field ms ["priority"] (optional number) none

/-- Reads the members of a condition of a given type, its children being read already. -/
def ofMembers (tag : Tag) (ms : Members Json) (children : Decoded (List Condition)) :
    Decoded Condition :=
  match tag with
  | .simple =>
    (fun common path operator =>
      .simple common path operator ((ms.get? "value").getD .null)) <$>
      commonFrom tag ms <*>
      field ms ["field"] text "" <*>
      field ms ["operator"] text ""
  | .compound =>
    Condition.compound <$> commonFrom tag ms <*> field ms ["operator"] text "" <*> children
  | .function =>
    Condition.function <$> commonFrom tag ms <*>
      field ms ["function_name"] text "" <*>
      field ms ["parameters"] (mapping .ok) []
  | .contextual =>
    Condition.contextual <$> commonFrom tag ms <*>
      field ms ["context_type"] text "" <*>
      field ms ["context_data"] (mapping .ok) []
  | .unknown =>
    (fun common => .unknown common ((ms.get? "type").getD .null)) <$> commonFrom tag ms

/-- How many conditions may stand inside each other, the outermost one counted in. -/
def deepest : Nat := 254

mutual

/-- Reads a condition that may go `room` conditions deep. The path of a fault begins with the type
of the condition. -/
def decodeWithin : Nat → Json → Decoded Condition
  | 0, j => (Decoded.fault .tooDeep).under (.member (Tag.ofDocument j).name)
  | room + 1, .obj ms =>
    let tag := Tag.ofDocument (.obj ms)
    (ofMembers tag ms (childrenFrom room ms)).under (.member tag.name)
  | _ + 1, _ => (Decoded.fault .notRecord).under (.member Tag.unknown.name)

/-- The children that the member `conditions` lists. -/
def childrenFrom (room : Nat) : Members Json → Decoded (List Condition)
  | [] => .ok []
  | (name, j) :: rest =>
    if name = "conditions" then (decodeChildren room j).under (.member name)
    else childrenFrom room rest

def decodeChildren (room : Nat) : Json → Decoded (List Condition)
  | .arr items => decodeItems room 0 items
  | _ => .fault .notList

def decodeItems (room : Nat) : Nat → List Json → Decoded (List Condition)
  | _, [] => .ok []
  | i, j :: rest =>
    List.cons <$> (decodeWithin room j).under (.item i) <*> decodeItems room (i + 1) rest

end

/-- Reads a condition. -/
def decode (j : Json) : Decoded Condition := decodeWithin deepest j

def Common.encode (c : Common) : Members Json :=
  [("id", Encode.optional .str c.id), ("description", Encode.optional .str c.description),
    ("priority", Encode.optional .float c.priority)]

mutual

def encode : Condition → Json
  | .simple c path operator value =>
    .obj (c.encode ++ [("type", .str "simple"), ("field", .str path), ("operator", .str operator),
      ("value", value)] ++ c.extras)
  | .compound c operator children =>
    .obj (c.encode ++ [("type", .str "compound"), ("operator", .str operator),
      ("conditions", .arr (encodeAll children))] ++ c.extras)
  | .function c name parameters =>
    .obj (c.encode ++ [("type", .str "function"), ("function_name", .str name),
      ("parameters", .obj parameters)] ++ c.extras)
  | .contextual c category data =>
    .obj (c.encode ++ [("type", .str "contextual"), ("context_type", .str category),
      ("context_data", .obj data)] ++ c.extras)
  | .unknown c type => .obj (c.encode ++ [("type", type)] ++ c.extras)

def encodeAll : List Condition → List Json
  | [] => []
  | c :: rest => encode c :: encodeAll rest

end

def tag : Condition → Tag
  | simple .. => .simple
  | compound .. => .compound
  | function .. => .function
  | contextual .. => .contextual
  | unknown .. => .unknown

mutual

/-- A condition and all conditions in it, depth first. -/
def nodes : Condition → List Condition
  | .compound c operator children => .compound c operator children :: nodesOf children
  | c => [c]

def nodesOf : List Condition → List Condition
  | [] => []
  | c :: rest => nodes c ++ nodesOf rest

end

/-- Whether a condition calls, by its name, a built-in function that draws random numbers. -/
def drawsAtTop : Condition → Bool
  | .function _ name _ => ((Vocabulary.ofName? name).map BuiltIn.isRandom).getD false
  | _ => false

/-- Whether none of some conditions draws random numbers, at any depth. -/
def isDeterministic (cs : List Condition) : Bool :=
  cs.all fun c => c.nodes.all fun n => !n.drawsAtTop

end Condition

end EntityRules
