import EntityRules.Json

/-! How deep documents go. -/

namespace EntityRules.Json

mutual

/-- The layers of a document: one for itself on top of those of its deepest part. -/
def layers : Json → Nat
  | .arr items => 1 + layersOfItems items
  | .obj ms => 1 + layersOfMembers ms
  | _ => 1

/-- The layers of the deepest item. -/
def layersOfItems : List Json → Nat
  | [] => 0
  | j :: rest => max (layers j) (layersOfItems rest)

/-- The layers of the deepest value. -/
def layersOfMembers : List (String × Json) → Nat
  | [] => 0
  | (_, j) :: rest => max (layers j) (layersOfMembers rest)

end

/-- How many layers a record may have that is to be written. -/
def mostLayers : Nat := 255

end EntityRules.Json
