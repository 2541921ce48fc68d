import EntityRules.Json
import EntityRules.Moment.Text
import EntityRules.Vocabulary

/-! Values that conditions look at: documents, and the parts of records as they are held. -/

namespace EntityRules

/-- A value; `Value.dump` writes it as a document. -/
inductive Value where
  | null
  | bool (b : Bool)
  | int (n : Int)
  | float (x : Float)
  /-- A number that was not given. It counts as the whole number zero, and its document is the
  double. -/
  | unset
  | str (s : String)
  | arr (items : List Value)
  | obj (members : List (String × Value))
  | phase (p : SessionPhase)
  | kind (k : EntityKind)
  | moment (m : Moment)
  /-- A record of the engine: the name of its type, and its fields in order. -/
  | record (type : String) (fields : List (String × Value))

namespace Value

mutual

def ofJson : Json → Value
  | .null => .null
  | .bool b => .bool b
  | .int n => .int n
  | .float x => .float x
  | .str s => .str s
  | .arr items => .arr (ofItems items)
  | .obj ms => .obj (ofMembers ms)

def ofItems : List Json → List Value
  | [] => []
  | j :: rest => ofJson j :: ofItems rest

def ofMembers : Members Json → Members Value
  | [] => []
  | (name, j) :: rest => (name, ofJson j) :: ofMembers rest

end

mutual

/-- The document of a value: words by name, moments as texts, records as objects. -/
def dump : Value → Json
  | .null => .null
  | .bool b => .bool b
  | .int n => .int n
  | .float x => .float x
  | .unset => .float 0
  | .str s => .str s
  | .arr items => .arr (dumpItems items)
  | .obj ms => .obj (dumpMembers ms)
  | .phase p => .str (Vocabulary.name p)
  | .kind k => .str (Vocabulary.name k)
  | .moment m => .str m.text
  | .record _ fields => .obj (dumpMembers fields)

def dumpItems : List Value → List Json
  | [] => []
  | v :: rest => dump v :: dumpItems rest

def dumpMembers : Members Value → Members Json
  | [] => []
  | (name, v) :: rest => (name, dump v) :: dumpMembers rest

end

mutual

theorem dump_ofJson : ∀ j : Json, dump (ofJson j) = j
  | .null | .bool _ | .int _ | .float _ | .str _ => rfl
  | .arr items => by simp only [ofJson, dump, dumpItems_ofItems items]
  | .obj ms => by simp only [ofJson, dump, dumpMembers_ofMembers ms]

theorem dumpItems_ofItems : ∀ items : List Json, dumpItems (ofItems items) = items
  | [] => rfl
  | j :: rest => by simp only [ofItems, dumpItems, dump_ofJson j, dumpItems_ofItems rest]

theorem dumpMembers_ofMembers : ∀ ms : Members Json, dumpMembers (ofMembers ms) = ms
  | [] => rfl
  | (name, j) :: rest => by
    simp only [ofMembers, dumpMembers, dump_ofJson j, dumpMembers_ofMembers rest]

end

theorem dumpItems_eq_map (vs : List Value) : dumpItems vs = vs.map dump := by
  induction vs with
  | nil => rfl
  | cons v rest ih => simp [dumpItems, ih]

theorem get?_dumpMembers (ms : Members Value) (name : String) :
    Members.get? (dumpMembers ms) name = (Members.get? ms name).map dump := by
  induction ms with
  | nil => rfl
  | cons m rest ih =>
    simp only [dumpMembers, Members.get?_cons, ih]
    split <;> rfl

/-- The value that a word or a number that was not given stands for, or the value itself. -/
def plain : Value → Value
  | .unset => .int 0
  | .phase p => .str (Vocabulary.name p)
  | .kind k => .str (Vocabulary.name k)
  | v => v

/-- Whether a value counts as true: what is empty or zero does not. -/
def truthy : Value → Bool
  | .null => false
  | .bool b => b
  | .int n => n ≠ 0
  | .float x => x != 0.0
  | .unset => false
  | .str s => s ≠ ""
  | .arr items => !items.isEmpty
  | .obj ms => !ms.isEmpty
  | .phase _ | .kind _ | .moment _ | .record _ _ => true

/-- The name of a value's type in messages. -/
def typeName : Value → String
  | .null => "NoneType"
  | .bool _ => "bool"
  | .int _ => "int"
  | .float _ => "float"
  | .unset => "int"
  | .str _ => "str"
  | .arr _ => "list"
  | .obj _ => "dict"
  | .phase _ => "SessionPhase"
  | .kind _ => "EntityKind"
  | .moment _ => "datetime"
  | .record type _ => type

end Value

namespace Json

def truthy (j : Json) : Bool := (Value.ofJson j).truthy

def typeName (j : Json) : String := (Value.ofJson j).typeName

end Json

end EntityRules
