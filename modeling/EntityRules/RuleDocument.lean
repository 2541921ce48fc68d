import EntityRules.Entity
import EntityRules.Query.Filter
import EntityRules.Relationship

/-! Rule documents: conditions that gate entities, records of candidates, and relationships. -/

namespace EntityRules

structure RuleDocument where
  entities : Members (List Condition)
  records : List (EntityRecord Float)
  relationships : List (Relationship Float)

namespace RuleDocument

open Decode

def decode (now : Moment) : Json → Decoded RuleDocument :=
  record fun ms =>
    RuleDocument.mk <$>
      field ms ["entities"] (mapping (list Condition.decode)) [] <*>
      field ms ["records"] (list EntityRecord.decode) [] <*>
      field ms ["relationships"] (list (Relationship.decode now)) []

def encode (d : RuleDocument) : Json :=
  .obj [("entities", Encode.mapping (fun cs => .arr (Condition.encodeAll cs)) d.entities),
    ("records", Encode.list EntityRecord.encode d.records),
    ("relationships", Encode.list Relationship.encode d.relationships)]

/-- The conditions of each entity, ready for evaluation. -/
def conditionSets (d : RuleDocument) : List EntityConditionSet :=
  d.entities.map fun e => { entityId := e.1, conditions := e.2, kind := none }

end RuleDocument

end EntityRules
