import EntityRules.Decode
import EntityRules.Json.Canonical
import EntityRules.Value.Compare

/-! The names of the nodes of a graph. -/

namespace EntityRules.NodeName

/-- What the names of identifiers that are no texts begin with. -/
def mark : String := String.ofList [Char.ofNat 0, Char.ofNat 0]

/-- The name that an identifier goes by. Lists and objects have none. -/
def ofJson? : Json → Option String
  | .str name => some name
  | id => (Value.keyForm id).toOption.map fun key => mark ++ key.canonical

/-- Whether a name is a text of its own. -/
def isText (name : String) : Bool := !mark.toList.isPrefixOf name.toList

/-- The faults of a list of names that has to be one of texts. -/
def faults (listName : String) (names : List String) : List Fault :=
  names.zipIdx.filterMap fun (name, i) =>
    if isText name then none else some ⟨.notText, [.member listName, .item i]⟩

end EntityRules.NodeName
