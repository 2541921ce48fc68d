import EntityRules.Value
import EntityRules.Number.Format
import EntityRules.Text.Quoted

/-! Values as they stand in messages. -/

namespace EntityRules.Value

open Text

def joinWith (separator : String) (parts : List String) : String := separator.intercalate parts

/-- The name of a word in messages: the name of its vocabulary, a point, and its name in
capitals. -/
def wordText (vocabulary name : String) : String :=
  vocabulary ++ "." ++ String.ofList (name.toList.map Char.toUpper)

def nested (vocabulary name : String) : String :=
  "<" ++ wordText vocabulary name ++ ": " ++ quoted name ++ ">"

/-- A moment inside other values: its numbers without zero seconds at the end, and the offset in
seconds. -/
def momentText (m : Moment) : String :=
  let small :=
    if m.micro ≠ 0 then [m.second, m.micro] else if m.second ≠ 0 then [m.second] else []
  let numbers := ([m.year, m.month, m.day, m.hour, m.minute] ++ small).map toString
  let zone := match m.offset with
    | some o => ["tzinfo=TzInfo(" ++ toString (60 * o) ++ ")"]
    | none => []
  "datetime.datetime(" ++ joinWith ", " (numbers ++ zone) ++ ")"

mutual

/-- A value as it stands inside another one. -/
def inner : Value → String
  | .null => "None"
  | .bool b => if b then "True" else "False"
  | .int n => toString n
  | .float x => Number.text Number.plain x
  | .unset => "0"
  | .str s => quoted s
  | .arr items => "[" ++ joinWith ", " (innerItems items) ++ "]"
  | .obj ms => "\x7b" ++ joinWith ", " (innerMembers ms) ++ "\x7d"
  | .phase p => nested "SessionPhase" (Vocabulary.name p)
  | .kind k => nested "EntityKind" (Vocabulary.name k)
  | .moment m => momentText m
  | .record type fields => type ++ "(" ++ joinWith ", " (innerFields fields) ++ ")"

def innerItems : List Value → List String
  | [] => []
  | v :: rest => inner v :: innerItems rest

def innerMembers : Members Value → List String
  | [] => []
  | (name, v) :: rest => (quoted name ++ ": " ++ inner v) :: innerMembers rest

def innerFields : Members Value → List String
  | [] => []
  | (name, v) :: rest => (name ++ "=" ++ inner v) :: innerFields rest

end

/-- A value on its own. -/
def text : Value → String
  | .str s => s
  | .phase p => wordText "SessionPhase" (Vocabulary.name p)
  | .kind k => wordText "EntityKind" (Vocabulary.name k)
  | .moment m => m.plainText
  | .record _ fields => joinWith " " (innerFields fields)
  | v => inner v

end EntityRules.Value

namespace EntityRules.Json

/-- A document as it stands in messages, on its own. -/
def message (j : Json) : String := (Value.ofJson j).text

/-- A document as it stands in messages, inside another one. -/
def innerMessage (j : Json) : String := (Value.ofJson j).inner

end EntityRules.Json
