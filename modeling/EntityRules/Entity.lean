import EntityRules.Decode
import EntityRules.State

/-! Records of game content. -/

namespace EntityRules

structure EntityRequirements where
  level : Option Int := none
  items : List String := []

structure ResourceRequirements (α : Type) where
  hp : Option α := none
  mp : Option α := none

/-- A record of game content. It carries the members that no field of it takes, and has the kind
that its identifier names unless it says another. Its numbers are of type `α`. -/
structure EntityRecord (α : Type) where
  id : String
  kind : EntityKind
  name : Option String
  tags : List String
  priority : α
  location : Option String
  requiredLevel : Option Int
  storyRelevance : Option α
  playerAlignment : Option α
  difficulty : Option α
  timestamp : Option Moment
  availableFrom : Option Moment
  availableUntil : Option Moment
  requiredPhase : Option String
  requirements : Option EntityRequirements
  /-- The seconds that have to pass after the latest event. -/
  minEventInterval : Option α
  resourceRequirements : Option (ResourceRequirements α)
  metadata : Members Json
  extras : Members Json

open Decode

def EntityRequirements.decode : Json → Decoded EntityRequirements :=
  record fun ms =>
    EntityRequirements.mk <$>
      field ms ["level"] (optional whole) none <*>
      field ms ["items"] (list text) []

def EntityRequirements.view (r : EntityRequirements) : Value :=
  .record "EntityRequirements" [
    ("level", .ofOption .int r.level), ("items", .ofList .str r.items)]

def ResourceRequirements.decode : Json → Decoded (ResourceRequirements Float) :=
  record fun ms =>
    ResourceRequirements.mk <$>
      field ms ["hp"] (optional number) none <*>
      field ms ["mp"] (optional number) none

def ResourceRequirements.view (r : ResourceRequirements Float) : Value :=
  .record "ResourceRequirements" [
    ("hp", .ofOption .float r.hp), ("mp", .ofOption .float r.mp)]

namespace EntityRecord

/-- The names under which each field is read, the first one present being taken. -/
def fieldNames : List (List String) := [
  ["id"], ["type", "entity_type", "entityType"], ["name"], ["tags"], ["priority"], ["location"],
  ["required_level", "requiredLevel"], ["story_relevance", "storyRelevance"],
  ["player_alignment", "playerAlignment"], ["difficulty"], ["timestamp"],
  ["available_from", "availableFrom"], ["available_until", "availableUntil"],
  ["required_phase", "requiredPhase"], ["requirements"],
  ["min_event_interval", "minEventInterval"], ["resource_requirements", "resourceRequirements"],
  ["metadata"]]

def decode : Json → Decoded (EntityRecord Float) :=
  record fun ms =>
    (fun id kind name tags priority location requiredLevel storyRelevance playerAlignment
        difficulty timestamp availableFrom availableUntil requiredPhase requirements
        minEventInterval resourceRequirements metadata =>
      { id, kind := kind.getD (.infer id), name, tags, priority, location, requiredLevel,
        storyRelevance, playerAlignment, difficulty, timestamp, availableFrom, availableUntil,
        requiredPhase, requirements, minEventInterval, resourceRequirements, metadata,
        extras := untaken ms fieldNames }) <$>
      required ms ["id"] text <*>
      field ms ["type", "entity_type", "entityType"] (optional word) none <*>
      field ms ["name"] (optional text) none <*>
      field ms ["tags"] (list text) [] <*>
      field ms ["priority"] number 0 <*>
      field ms ["location"] (optional text) none <*>
      field ms ["required_level", "requiredLevel"] (optional whole) none <*>
      field ms ["story_relevance", "storyRelevance"] (optional number) none <*>
      field ms ["player_alignment", "playerAlignment"] (optional number) none <*>
      field ms ["difficulty"] (optional number) none <*>
      field ms ["timestamp"] (optional moment) none <*>
      field ms ["available_from", "availableFrom"] (optional moment) none <*>
      field ms ["available_until", "availableUntil"] (optional moment) none <*>
      field ms ["required_phase", "requiredPhase"] (optional text) none <*>
      field ms ["requirements"] (optional EntityRequirements.decode) none <*>
      field ms ["min_event_interval", "minEventInterval"] (optional number) none <*>
      field ms ["resource_requirements", "resourceRequirements"]
        (optional ResourceRequirements.decode) none <*>
      field ms ["metadata"] (mapping .ok) []

def view (e : EntityRecord Float) : Value :=
  .record "EntityRecord" ([
    ("id", .str e.id), ("type", .kind e.kind), ("name", .ofOption .str e.name),
    ("tags", .ofList .str e.tags), ("priority", .float e.priority),
    ("location", .ofOption .str e.location), ("required_level", .ofOption .int e.requiredLevel),
    ("story_relevance", .ofOption .float e.storyRelevance),
    ("player_alignment", .ofOption .float e.playerAlignment),
    ("difficulty", .ofOption .float e.difficulty),
    ("timestamp", .ofOption .moment e.timestamp),
    ("available_from", .ofOption .moment e.availableFrom),
    ("available_until", .ofOption .moment e.availableUntil),
    ("required_phase", .ofOption .str e.requiredPhase),
    ("requirements", .ofOption EntityRequirements.view e.requirements),
    ("min_event_interval", .ofOption .float e.minEventInterval),
    ("resource_requirements", .ofOption ResourceRequirements.view e.resourceRequirements),
    ("metadata", .obj (Value.ofMembers e.metadata))] ++ Value.ofMembers e.extras)

def encode (e : EntityRecord Float) : Json := e.view.dump

end EntityRecord

end EntityRules
