import EntityRules.Json
import EntityRules.Moment.Text
import EntityRules.Vocabulary

/-! Writing the fields of records as documents. -/

namespace EntityRules.Encode

variable {α : Type}

def optional (enc : α → Json) : Option α → Json
  | none => .null
  | some a => enc a

def list (enc : α → Json) (xs : List α) : Json := .arr (xs.map enc)

def mapping (enc : α → Json) (ms : Members α) : Json := .obj (ms.map fun m => (m.1, enc m.2))

def word [Vocabulary α] (w : α) : Json := .str (Vocabulary.name w)

def moment (m : Moment) : Json := .str m.text

end EntityRules.Encode
