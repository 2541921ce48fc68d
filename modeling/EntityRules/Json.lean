/-! Documents: null, booleans, whole numbers, double-precision numbers, texts, lists and objects. -/

namespace EntityRules

/-- A document. A whole number and a double of the same value are different documents, and the
members of an object keep their order. -/
inductive Json where
  | null
  | bool (b : Bool)
  | int (n : Int)
  | float (x : Float)
  | str (s : String)
  | arr (items : List Json)
  | obj (members : List (String × Json))
deriving Inhabited, Repr

/-- Named members in the order in which their names first came. -/
abbrev Members (α : Type) := List (String × α)

namespace Members

variable {α : Type}

def get? (ms : Members α) (name : String) : Option α :=
  (ms.find? (·.1 = name)).map (·.2)

def has (ms : Members α) (name : String) : Bool := ms.any (·.1 = name)

/-- Gives a name a new value where it stands, or appends it. -/
def put (ms : Members α) (name : String) (value : α) : Members α :=
  match ms with
  | [] => [(name, value)]
  | m :: rest => if m.1 = name then (name, value) :: rest else m :: put rest name value

def erase (ms : Members α) (name : String) : Members α := ms.filter (·.1 ≠ name)

def names (ms : Members α) : List String := ms.map (·.1)

@[simp] theorem get?_nil (name : String) : get? ([] : Members α) name = none := rfl

theorem get?_cons (m : String × α) (ms : Members α) (name : String) :
    get? (m :: ms) name = if m.1 = name then some m.2 else get? ms name := by
  by_cases h : m.1 = name <;> simp [get?, h]

theorem get?_put (ms : Members α) (name other : String) (value : α) :
    (ms.put name value).get? other = if name = other then some value else ms.get? other := by
  induction ms with
  | nil => simp [put, get?_cons]
  | cons m rest ih =>
    by_cases h : m.1 = name
    · simp only [put, h, if_true, get?_cons]
      split <;> simp_all
    · simp only [put, h, if_false, get?_cons, ih]
      grind

theorem has_eq_isSome_get? (ms : Members α) (name : String) :
    ms.has name = (ms.get? name).isSome := by
  induction ms with
  | nil => rfl
  | cons m rest ih =>
    rw [get?_cons]
    by_cases h : m.1 = name <;> simp_all [has]

end Members

namespace Json

/-- A member of an object; other documents have none. -/
def member? (name : String) : Json → Option Json
  | .obj ms => Members.get? ms name
  | _ => none

def isNull : Json → Bool
  | .null => true
  | _ => false

def isText : Json → Bool
  | .str _ => true
  | _ => false

/-- The items of a document: of a list the items, of an object the names, of a text the characters;
other documents have none. -/
def elements? : Json → Option (List Json)
  | .arr items => some items
  | .obj ms => some (ms.map fun m => .str m.1)
  | .str s => some (s.toList.map fun c => .str (String.ofList [c]))
  | _ => none

/-- Whether a document can have parts. -/
def isContainer : Json → Bool
  | .arr _ | .obj _ => true
  | _ => false

end Json

end EntityRules
