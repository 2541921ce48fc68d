import EntityRules.Graph.Search

/-! Measures of the whole graph, and the analysis of a single entity in it. -/

namespace EntityRules.RelationshipGraph

variable {α : Type} [Scalar α]

/-- How many edges start or end at an entity. -/
def connections (g : RelationshipGraph α) (id : String) : Nat :=
  (g.outgoingOf id).length + (g.incomingOf id).length

/-- The number of edges for each node; zero in an empty graph. -/
def averageConnectivity (g : RelationshipGraph α) : α :=
  if g.nodes.isEmpty then 0 else Scalar.count g.edges.length / Scalar.count g.nodes.length

/-- The hubs, which have more connections than a threshold; the one with the most connections comes
first. -/
def hubsAbove (g : RelationshipGraph α) (threshold : α) : List Hub :=
  let counts := g.nodes.map fun id => { id, connections := g.connections id : Hub }
  (counts.filter fun h => Scalar.lt threshold (Scalar.count h.connections)).mergeSort
    fun a b => decide (b.connections ≤ a.connections)

/-- The hubs. An empty graph has none, whatever makes a hub. -/
def hubs (g : RelationshipGraph α) : Except ExtentTrouble (List Hub) :=
  if g.nodes.isEmpty then .ok []
  else g.options.hubFactor.scalar.map fun factor => g.hubsAbove (g.averageConnectivity * factor)

/-- The measures of a graph with some hubs. -/
def measured (g : RelationshipGraph α) (hubs : List Hub) : GraphMetrics α :=
  { nodes := g.nodes.length, edges := g.edges.length
    averageConnectivity := g.averageConnectivity
    components := g.components
    isolated := g.nodes.filter fun id => g.connections id = 0
    hubs }

/-- Measures whose names are all texts. -/
def checked (m : GraphMetrics α) : Except GraphTrouble (GraphMetrics α) :=
  if m.hubs.any fun h => !NodeName.isText h.id then
    .error (.notTexts "HubNode" [⟨.notText, [.member "id"]⟩])
  else
    match NodeName.faults "isolated_nodes" m.isolated with
    | [] => .ok m
    | faults => .error (.notTexts "GraphMetrics" faults)

def metrics (g : RelationshipGraph α) : Except GraphTrouble (GraphMetrics α) :=
  match g.hubs with
  | .error why => .error (.extent why)
  | .ok hubs => checked (g.measured hubs)

/-- How well an entity is connected: its number of edges, ten or more counting fully, and their
average strength make one half each. -/
def scoreOf (direct : List (Relationship α)) : α :=
  if direct.isEmpty then 0
  else
    let connectivity := Scalar.min (Scalar.count direct.length / Scalar.count 10) 1
    let average := Scalar.sum (direct.map (·.strength)) / Scalar.count direct.length
    Scalar.half (connectivity + average)

/-- A number of tenths. -/
def tenths (n : Nat) : α := Scalar.count n / Scalar.count 10

/-- How much depends on an entity with a score and a chain of dependencies. -/
def impactOf (score : α) (chain : Nat) (hub : Bool) : ImpactLevel :=
  if hub || 10 < chain then .critical
  else if Scalar.lt (tenths 7) score || 5 < chain then .high
  else if Scalar.lt (tenths 4) score || 2 < chain then .medium
  else .low

/-- Analyses an entity anew. -/
def analyzeAnew (g : RelationshipGraph α) (id : String) (now : Moment) :
    Except GraphTrouble (RelationshipAnalysis α) := do
  let metrics ← g.metrics
  let indirect ← (g.indirect id none now).mapError .extent
  let direct := g.relationshipsOf id true
  let chain := g.dependencyChain id
  let score := scoreOf direct
  return { id, direct, indirect, chain, cycles := g.dependencyCycles id, score
           impact := impactOf score chain.length (metrics.hubs.any (·.id = id)) }

/-- What is known about an entity. Analyses are remembered until the graph changes. -/
def analyze (g : RelationshipGraph α) (id : String) (now : Moment) :
    Except GraphTrouble (RelationshipAnalysis α) × RelationshipGraph α :=
  match g.analyses.get id 0 with
  | (some found, analyses) => (.ok found, { g with analyses })
  | (none, analyses) =>
    let g := { g with analyses }
    if g.has id then
      match g.analyzeAnew id now with
      | .ok found => (.ok found, { g with analyses := analyses.store id found none 0 })
      | .error why => (.error why, g)
    else (.ok (.unknown id), g)

def statistics (g : RelationshipGraph α) : GraphStatistics α :=
  { metadata := g.metadata, analyses := g.analyses.metrics 0, paths := g.paths.metrics 0 }

end EntityRules.RelationshipGraph
