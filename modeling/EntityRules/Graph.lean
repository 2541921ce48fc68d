import EntityRules.Graph.Findings

/-! The graph of relationships. -/

namespace EntityRules

/-- How a graph is searched. A value that is no number is found when it is needed. -/
structure GraphOptions (α : Type) where
  /-- The factor by which every further hop weakens an indirect relationship. -/
  strengthDecay : Extent α
  indirectDepth : Extent Float
  pathHops : Extent Float
  /-- How many times the average connectivity a hub has to exceed. -/
  hubFactor : Extent α
  cacheCapacity : Extent Float

/-- A graph with every edge under its source and, once more, under its target. What was found out
about it is remembered until it changes; every change is announced by a new revision. -/
structure RelationshipGraph (α : Type) where
  options : GraphOptions α
  /-- The edges under their source. -/
  outgoing : Members (List (Relationship α))
  /-- The edges under their target. -/
  incoming : Members (List (Relationship α))
  /-- The entities that are nodes even without edges. -/
  registered : List String
  metadata : GraphMetadata
  analyses : ResultCache String (RelationshipAnalysis α) α
  paths : ResultCache (String × String × Bound) (GraphPath α) α
  /-- How often listeners were told of a change. -/
  revision : Nat

namespace RelationshipGraph

variable {α β κ : Type}

/-- An empty graph; its caches need some capacity. -/
def create (options : GraphOptions α) (now : Moment) :
    Except CapacityTrouble (RelationshipGraph α) := do
  let analyses ← ResultCache.create "relationship_analysis" options.cacheCapacity none
  let paths ← ResultCache.create "relationship_paths" options.cacheCapacity none
  return { options, outgoing := [], incoming := [], registered := [], metadata := .fresh now
           analyses, paths, revision := 0 }

/-- The edges that start at an entity. -/
def outgoingOf (g : RelationshipGraph α) (id : String) : List (Relationship α) :=
  (g.outgoing.get? id).getD []

/-- The edges that end at an entity. -/
def incomingOf (g : RelationshipGraph α) (id : String) : List (Relationship α) :=
  (g.incoming.get? id).getD []

/-- The edges under all names. -/
def edgesOf (ms : Members (List β)) : List β := ms.flatMap (·.2)

/-- All edges, source by source. -/
def edges (g : RelationshipGraph α) : List (Relationship α) := edgesOf g.outgoing

/-- The nodes that some edges touch and those registered, each once: every source is followed by the
targets of its edges, and registered entities come last. -/
def nodesOf (outgoing : Members (List (Relationship α))) (registered : List String) :
    List String :=
  ((outgoing.flatMap fun m => m.1 :: m.2.map (·.target)) ++ registered).eraseDups

def nodes (g : RelationshipGraph α) : List String := nodesOf g.outgoing g.registered

def has (g : RelationshipGraph α) (id : String) : Bool :=
  g.outgoing.has id || g.incoming.has id || g.registered.contains id

/-- The edges of an entity: those that start at it and, if wanted, those that end at it as it sees
them. -/
def relationshipsOf (g : RelationshipGraph α) (id : String) (both : Bool) :
    List (Relationship α) :=
  g.outgoingOf id ++
    if both then ((g.incomingOf id).filter (!·.isSelfReference)).map (·.inverted) else []

/-- Forgets what was found out. -/
def forget (g : RelationshipGraph α) : RelationshipGraph α :=
  { g with analyses := g.analyses.clear, paths := g.paths.clear }

/-- Tells the listeners of a change. -/
def announce (g : RelationshipGraph α) : RelationshipGraph α :=
  { g with revision := g.revision + 1 }

/-- Counts the nodes and edges anew. -/
def recount (g : RelationshipGraph α) : RelationshipGraph α :=
  { g with metadata := { g.metadata with
      totalNodes := g.nodes.length, totalEdges := g.edges.length } }

/-- Ends a change at a time. -/
def changed (g : RelationshipGraph α) (now : Moment) : RelationshipGraph α :=
  let g := g.recount
  { g with metadata := { g.metadata with lastUpdated := now } }.forget.announce

/-- Makes an entity a node; one that was registered before stays as it is. -/
def register (g : RelationshipGraph α) (id : String) (now : Moment) : RelationshipGraph α :=
  if g.registered.contains id then g
  else { g with registered := g.registered ++ [id] }.changed now

/-- Puts an edge in the first place with its key, or at the end. -/
def place [DecidableEq κ] (key : β → κ) (r : β) : List β → List β
  | [] => [r]
  | e :: rest => if key e = key r then r :: rest else e :: place key r rest

/-- Stores an edge; the edge with its key is replaced. -/
def add (g : RelationshipGraph α) (r : Relationship α) (now : Moment) : RelationshipGraph α :=
  let status :=
    if r.isSelfReference || g.metadata.status = .invalid then .needsUpdate else g.metadata.status
  { g with
    outgoing := g.outgoing.put r.source (place Relationship.key r (g.outgoingOf r.source))
    incoming := g.incoming.put r.target (place Relationship.key r (g.incomingOf r.target))
    metadata := { g.metadata with status } }.changed now

/-- Replaces the edges under a name; a name without edges is dropped. -/
def putEdges (ms : Members (List β)) (name : String) (edges : List β) : Members (List β) :=
  if edges.isEmpty then ms.erase name else ms.put name edges

/-- Removes the edges between two entities that have a wanted type. Whether there were any comes
with the graph. -/
def removeWhere (g : RelationshipGraph α) (source target : String)
    (wanted : RelationshipType → Bool) (now : Moment) : Bool × RelationshipGraph α :=
  if (g.outgoingOf source).any fun r => r.target = target && wanted r.type then
    let status := if g.metadata.status = .invalid then .needsUpdate else g.metadata.status
    (true,
      { g with
        outgoing := putEdges g.outgoing source
          ((g.outgoingOf source).filter fun r => !(r.target = target && wanted r.type))
        incoming := putEdges g.incoming target
          ((g.incomingOf target).filter fun r => !(r.source = source && wanted r.type))
        metadata := { g.metadata with status } }.changed now)
  else (false, g)

/-- Removes the edges between two entities: those of a type given by name, or all. -/
def remove (g : RelationshipGraph α) (source target : String) (type : Option String)
    (now : Moment) : Bool × RelationshipGraph α :=
  match type with
  | none => g.removeWhere source target (fun _ => true) now
  | some name =>
    match Vocabulary.ofName? name with
    | some wanted => g.removeWhere source target (· = wanted) now
    | none => (false, g)

/-- Forgets what was found out and says so. -/
def clearCaches (g : RelationshipGraph α) : RelationshipGraph α := g.forget.announce

/-- The whole graph as it is stored. -/
def snapshot (g : RelationshipGraph α) : GraphSnapshot α :=
  { relationships := g.outgoing, metadata := g.metadata, nodes := g.registered }

/-- The edges of a snapshot, source by source. The name that edges are listed under is their
source. -/
def edgesIn (s : GraphSnapshot α) : List (Relationship α) :=
  s.relationships.flatMap fun m => m.2.map fun r => { r with source := m.1 }

/-- Edges under the names that a key gives them, the names standing in the order in which they
first come. -/
def indexBy (key : β → String) (edges : List β) : Members (List β) :=
  edges.foldl (fun ms r => ms.put (key r) ((ms.get? (key r)).getD [] ++ [r])) []

/-- The whole graph as it is handed out; every node has to be named by a text. -/
def exported (g : RelationshipGraph α) : Except GraphTrouble (GraphSnapshot α) :=
  match NodeName.faults "nodes" g.registered with
  | [] => .ok g.snapshot
  | faults => .error (.notTexts "GraphSnapshot" faults)

/-- Replaces the contents by those of a snapshot, edges that repeat a key included. -/
def load (g : RelationshipGraph α) (s : GraphSnapshot α) : RelationshipGraph α :=
  let edges := edgesIn s
  { g with
    outgoing := indexBy (·.source) edges
    incoming := indexBy (·.target) edges
    registered := s.nodes.eraseDups
    metadata := s.metadata }.recount.forget.announce

/-- Marks an edge as validated once more. -/
def stamped (now : Moment) (r : Relationship α) : Relationship α :=
  { r with metadata := { r.metadata with
      validationCount := r.metadata.validationCount + 1, lastValidated := some now } }

/-- The defects at the edges of a source, given the targets and types of the edges before them. -/
def issuesAt (source : String) (seen : List (String × RelationshipType)) :
    List (Relationship α) → List GraphIssue
  | [] => []
  | r :: rest =>
    (if r.isSelfReference then [⟨.selfReference, source, r.target, r.type⟩] else []) ++
    (if (r.target, r.type) ∈ seen then [⟨.duplicate, source, r.target, r.type⟩] else []) ++
    issuesAt source ((r.target, r.type) :: seen) rest

/-- The self-references and the edges that repeat a key. -/
def issues (g : RelationshipGraph α) : List GraphIssue :=
  g.outgoing.flatMap fun m => issuesAt m.1 [] m.2

/-- Reports the defects of the graph and notes what was found out. Nothing is repaired. -/
def validate (g : RelationshipGraph α) (now : Moment) : GraphReport × RelationshipGraph α :=
  let issues := g.issues
  let status := if issues.isEmpty then .valid else .invalid
  let stamp (ms : Members (List (Relationship α))) :=
    ms.map fun m => (m.1, m.2.map (stamped now))
  ({ status, issues },
    { g with
      outgoing := stamp g.outgoing, incoming := stamp g.incoming
      metadata := { g.metadata with status } })

end RelationshipGraph

end EntityRules
