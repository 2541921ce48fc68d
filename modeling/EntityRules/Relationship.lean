import EntityRules.Condition
import EntityRules.Number.Scalar

/-! Relationships: typed, weighted, directed edges between entities, and snapshots of graphs. -/

namespace EntityRules

structure RelationshipMetadata where
  description : Option String
  createdAt : Moment
  lastValidated : Option Moment
  validationCount : Int
  /-- The tag of the context that the relationship matters in; it always matters without one. -/
  context : Option String

structure Relationship (α : Type) where
  id : String
  source : String
  target : String
  type : RelationshipType
  strength : α
  bidirectional : Bool
  conditions : Option (List Condition)
  metadata : RelationshipMetadata

structure GraphMetadata where
  totalNodes : Int
  totalEdges : Int
  lastUpdated : Moment
  status : ValidationStatus

/-- A graph as it is stored: the outgoing edges of every source, and the registered nodes. -/
structure GraphSnapshot (α : Type) where
  relationships : Members (List (Relationship α))
  metadata : GraphMetadata
  nodes : List String

open Decode

namespace RelationshipMetadata

/-- Metadata of a relationship made at a given time. -/
def fresh (now : Moment) (description : Option String) : RelationshipMetadata :=
  { description, createdAt := now, lastValidated := none, validationCount := 0, context := none }

def decode (now : Moment) : Json → Decoded RelationshipMetadata :=
  record fun ms =>
    RelationshipMetadata.mk <$>
      field ms ["description"] (optional text) none <*>
      field ms ["created_at", "createdAt"] moment now <*>
      field ms ["last_validated", "lastValidated"] (optional moment) none <*>
      field ms ["validation_count", "validationCount"] whole 0 <*>
      field ms ["context"] (optional text) none

def encode (m : RelationshipMetadata) : Json :=
  .obj [("description", Encode.optional .str m.description),
    ("created_at", Encode.moment m.createdAt),
    ("last_validated", Encode.optional Encode.moment m.lastValidated),
    ("validation_count", .int m.validationCount), ("context", Encode.optional .str m.context)]

end RelationshipMetadata

namespace Relationship

variable {α : Type}

/-- What identifies an edge: where it starts, where it ends, and its type. -/
def key (r : Relationship α) : String × String × RelationshipType := (r.source, r.target, r.type)

def isSelfReference (r : Relationship α) : Bool := r.source = r.target

/-- The edge as its target sees it. -/
def inverted (r : Relationship α) : Relationship α :=
  { r with id := r.id ++ "-reverse", source := r.target, target := r.source }

/-- The name of an edge that was given none. -/
def defaultId (source target : String) (type : RelationshipType) : String :=
  source ++ "-" ++ target ++ "-" ++ Vocabulary.name type

/-- Reads a strength: a number or the text of one, brought into the range from zero to one. -/
def strengthFrom : Json → Decoded Float
  | .int n =>
    match Binary64.ofInt? n with
    | some x => .ok (Scalar.clamp x)
    | none => .refused .sizeOfNumber
  | .float x => .ok (Scalar.clamp x)
  | .bool b => .ok (if b then 1 else 0)
  | .str s =>
    match Number.readAny? s with
    | some x => .ok (Scalar.clamp x)
    | none => .fault .rejected
  | _ => .refused .shapeOfNumber

def decode (now : Moment) : Json → Decoded (Relationship Float) :=
  record fun ms =>
    (fun id source target type strength bidirectional conditions metadata =>
      { id := if id = "" then defaultId source target type else id
        source, target, type, strength, bidirectional, conditions, metadata }) <$>
      field ms ["id"] text "" <*>
      required ms ["source_id", "sourceId", "sourceEntityId"] text <*>
      required ms ["target_id", "targetId", "targetEntityId"] text <*>
      required ms ["type", "relation_type", "relationType"] word <*>
      field ms ["strength"] strengthFrom 1 <*>
      field ms ["bidirectional"] boolean false <*>
      field ms ["conditions"] (optional (list Condition.decode)) none <*>
      field ms ["metadata"] (RelationshipMetadata.decode now) (.fresh now none)

def encode (r : Relationship Float) : Json :=
  .obj [("id", .str r.id), ("source_id", .str r.source), ("target_id", .str r.target),
    ("type", Encode.word r.type), ("strength", .float r.strength),
    ("bidirectional", .bool r.bidirectional),
    ("conditions", Encode.optional (fun cs => .arr (Condition.encodeAll cs)) r.conditions),
    ("metadata", r.metadata.encode)]

@[simp] theorem inverted_source (r : Relationship α) : r.inverted.source = r.target := rfl
@[simp] theorem inverted_target (r : Relationship α) : r.inverted.target = r.source := rfl
@[simp] theorem inverted_strength (r : Relationship α) : r.inverted.strength = r.strength := rfl

end Relationship

namespace GraphMetadata

def fresh (now : Moment) : GraphMetadata :=
  { totalNodes := 0, totalEdges := 0, lastUpdated := now, status := .valid }

def decode (now : Moment) : Json → Decoded GraphMetadata :=
  record fun ms =>
    GraphMetadata.mk <$>
      field ms ["total_nodes", "totalNodes"] whole 0 <*>
      field ms ["total_edges", "totalEdges"] whole 0 <*>
      field ms ["last_updated", "lastUpdated"] moment now <*>
      field ms ["validation_status", "validationStatus"] word .valid

def encode (m : GraphMetadata) : Json :=
  .obj [("total_nodes", .int m.totalNodes), ("total_edges", .int m.totalEdges),
    ("last_updated", Encode.moment m.lastUpdated), ("validation_status", Encode.word m.status)]

end GraphMetadata

namespace GraphSnapshot

def decode (now : Moment) : Json → Decoded (GraphSnapshot Float) :=
  record fun ms =>
    GraphSnapshot.mk <$>
      field ms ["relationships"] (mapping (list (Relationship.decode now))) [] <*>
      field ms ["metadata"] (GraphMetadata.decode now) (.fresh now) <*>
      field ms ["nodes"] (list text) []

def encode (s : GraphSnapshot Float) : Json :=
  .obj [("relationships", Encode.mapping (Encode.list Relationship.encode) s.relationships),
    ("metadata", s.metadata.encode), ("nodes", Encode.list .str s.nodes)]

end GraphSnapshot

end EntityRules
