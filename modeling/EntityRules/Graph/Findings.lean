import EntityRules.Cache
import EntityRules.Graph.NodeName
import EntityRules.Relationship

/-! What is found out about a graph: paths, measures, defects, and what surrounds an entity. -/

namespace EntityRules

/-- A path with the product of the strengths along it. -/
structure GraphPath (α : Type) where
  nodes : List String
  strength : α
  hops : Nat
  type : PathType

structure Hub where
  id : String
  connections : Nat

structure GraphMetrics (α : Type) where
  nodes : Nat
  edges : Nat
  /-- The number of edges for each node. -/
  averageConnectivity : α
  components : List (List String)
  isolated : List String
  hubs : List Hub

inductive GraphDefect where
  | selfReference
  | duplicate
deriving DecidableEq, Repr

def GraphDefect.name : GraphDefect → String
  | selfReference => "self_reference"
  | duplicate => "duplicate"

/-- A defect at an edge. -/
structure GraphIssue where
  defect : GraphDefect
  source : String
  target : String
  type : RelationshipType

structure GraphReport where
  status : ValidationStatus
  issues : List GraphIssue

structure RelationshipAnalysis (α : Type) where
  id : String
  direct : List (Relationship α)
  indirect : List (Relationship α)
  chain : List String
  cycles : List (List String)
  score : α
  impact : ImpactLevel

structure GraphStatistics (α : Type) where
  metadata : GraphMetadata
  analyses : CacheMetrics α
  paths : CacheMetrics α

/-- What keeps a finding from being told. -/
inductive GraphTrouble where
  /-- An option of the graph cannot be used as it is. -/
  | extent (why : ExtentTrouble)
  /-- A record would take names that are no texts. -/
  | notTexts (record : String) (faults : List Fault)

/-- Paths by the number of their hops. -/
def PathType.ofHops (hops : Nat) : PathType :=
  if hops ≤ 1 then .direct else if hops ≤ 3 then .indirect else .complex

def CacheMetrics.encode (m : CacheMetrics Float) : Json :=
  .obj [("name", .str m.name), ("size", .int m.size), ("maxsize", m.capacity.encode),
    ("hits", .int m.hits), ("misses", .int m.misses), ("hit_rate", .float m.hitRate)]

namespace GraphPath

/-- The path of an entity to itself. -/
def trivial {α : Type} [One α] (id : String) : GraphPath α :=
  { nodes := [id], strength := 1, hops := 0, type := .direct }

def encode (p : GraphPath Float) : Json :=
  .obj [("path", Encode.list .str p.nodes), ("relationship_strength", .float p.strength),
    ("hops", .int p.hops), ("path_type", Encode.word p.type)]

end GraphPath

def GraphMetrics.encode (m : GraphMetrics Float) : Json :=
  .obj [("total_nodes", .int m.nodes), ("total_edges", .int m.edges),
    ("average_connectivity", .float m.averageConnectivity),
    ("strongly_connected_components", Encode.list (Encode.list .str) m.components),
    ("isolated_nodes", Encode.list .str m.isolated),
    ("hub_nodes", Encode.list
      (fun h : Hub => .obj [("id", .str h.id), ("connection_count", .int h.connections)]) m.hubs)]

namespace GraphIssue

def message (i : GraphIssue) : String :=
  match i.defect with
  | .selfReference => "Self-reference detected: " ++ i.source
  | .duplicate =>
    "Duplicate relationship: " ++ i.source ++ " -> " ++ i.target ++
      " (" ++ Vocabulary.name i.type ++ ")"

def encode (i : GraphIssue) : Json :=
  .obj [("kind", .str i.defect.name), ("source_id", .str i.source), ("target_id", .str i.target),
    ("type", Encode.word i.type), ("message", .str i.message)]

end GraphIssue

namespace GraphReport

def isValid (r : GraphReport) : Bool := r.issues.isEmpty

/-- The message about a graph with defects. -/
def failureMessage (r : GraphReport) : String :=
  "Relationship graph failed validation with " ++ toString r.issues.length ++ " issue(s)"

/-- What goes with the message: the status and a line for each defect. -/
def failureDetails (r : GraphReport) : Members Json :=
  [("status", Encode.word r.status), ("issues", Encode.list (.str ·.message) r.issues)]

def encode (r : GraphReport) : Json :=
  .obj [("status", Encode.word r.status), ("issues", Encode.list GraphIssue.encode r.issues)]

end GraphReport

namespace RelationshipAnalysis

/-- What is known about an entity that is not in the graph. -/
def unknown {α : Type} [Zero α] (id : String) : RelationshipAnalysis α :=
  { id, direct := [], indirect := [], chain := [], cycles := [], score := 0, impact := .low }

def encode (a : RelationshipAnalysis Float) : Json :=
  .obj [("entity_id", .str a.id),
    ("direct_relationships", Encode.list Relationship.encode a.direct),
    ("indirect_relationships", Encode.list Relationship.encode a.indirect),
    ("dependency_chain", Encode.list .str a.chain),
    ("circular_dependencies", Encode.list (Encode.list .str) a.cycles),
    ("relationship_score", .float a.score), ("impact_level", Encode.word a.impact)]

end RelationshipAnalysis

def GraphStatistics.encode (s : GraphStatistics Float) : Json :=
  .obj [("total_nodes", .int s.metadata.totalNodes), ("total_edges", .int s.metadata.totalEdges),
    ("validation_status", Encode.word s.metadata.status),
    ("last_updated", .str s.metadata.lastUpdated.isoText),
    ("analysis_cache", s.analyses.encode), ("path_cache", s.paths.encode)]

end EntityRules
