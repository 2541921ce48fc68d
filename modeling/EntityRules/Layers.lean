import EntityRules.Graph.Findings
import EntityRules.Json.Layers
import EntityRules.RuleDocument

/-! How deep records go when they are written. -/

namespace EntityRules

/-- The greatest of some numbers of layers. -/
def deepestOf {α : Type} (layers : α → Nat) (xs : List α) : Nat := (xs.map layers).foldl max 0

namespace Condition

mutual

/-- The layers inside a condition: those of the documents it holds, and those inside its children
with one more for each child itself. -/
def layersInside : Condition → Nat
  | .simple c _ _ value => max value.layers (Json.layersOfMembers c.extras)
  | .compound c _ children => max (layersInsideAll children) (Json.layersOfMembers c.extras)
  | .function c _ parameters =>
    max (Json.layersOfMembers parameters) (Json.layersOfMembers c.extras)
  | .contextual c _ data => max (Json.layersOfMembers data) (Json.layersOfMembers c.extras)
  | .unknown c type => max type.layers (Json.layersOfMembers c.extras)

def layersInsideAll : List Condition → Nat
  | [] => 0
  | c :: rest => max (1 + layersInside c) (layersInsideAll rest)

end

/-- The layers of a condition on its own; a composition is a layer itself. -/
def layers (c : Condition) : Nat :=
  c.layersInside + if c.tag = .compound then 1 else 0

/-- The layers of the conditions that a record holds. -/
def layersHeld (cs : List Condition) : Nat := deepestOf (1 + layers ·) cs

end Condition

def EntityRecord.layers {α : Type} (e : EntityRecord α) : Nat :=
  max (Json.layersOfMembers e.metadata) (Json.layersOfMembers e.extras)

def EntityConditionSet.layers (s : EntityConditionSet) : Nat := Condition.layersHeld s.conditions

def QueryFilter.layers (f : QueryFilter) : Nat := Condition.layersHeld (f.conditions.getD [])

def Relationship.layers {α : Type} (r : Relationship α) : Nat :=
  Condition.layersHeld (r.conditions.getD [])

def GraphSnapshot.layers {α : Type} (s : GraphSnapshot α) : Nat :=
  deepestOf (deepestOf Relationship.layers ·.2) s.relationships

def RelationshipAnalysis.layers {α : Type} (a : RelationshipAnalysis α) : Nat :=
  deepestOf Relationship.layers a.direct

def RuleDocument.layers (d : RuleDocument) : Nat :=
  max (deepestOf (Condition.layersHeld ·.2) d.entities)
    (max (deepestOf EntityRecord.layers d.records) (deepestOf Relationship.layers d.relationships))

end EntityRules
