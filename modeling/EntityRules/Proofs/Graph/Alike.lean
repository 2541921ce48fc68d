import EntityRules.Graph.Analysis

/-! Graphs with the same edges in the same order, the same registered entities and settings. -/

namespace EntityRules.RelationshipGraph

variable {α : Type} {g g' : RelationshipGraph α}

/-- Graphs with the same settings, outgoing edges and registered entities, and with the same number
of edges at each entity. -/
structure Alike (g g' : RelationshipGraph α) : Prop where
  options : g'.options = g.options
  outgoing : g'.outgoing = g.outgoing
  registered : g'.registered = g.registered
  has : ∀ id, g'.has id = g.has id
  incoming : ∀ id, (g'.incomingOf id).length = (g.incomingOf id).length

namespace Alike

theorem outgoingOf (h : Alike g g') (id : String) : g'.outgoingOf id = g.outgoingOf id := by
  rw [RelationshipGraph.outgoingOf, h.outgoing]
  rfl

theorem nodes (h : Alike g g') : g'.nodes = g.nodes := by
  rw [RelationshipGraph.nodes, h.outgoing, h.registered]
  rfl

theorem edges (h : Alike g g') : g'.edges = g.edges := by
  rw [RelationshipGraph.edges, h.outgoing]
  rfl

theorem departing (h : Alike g g') (id : String) : g'.departing id = g.departing id := by
  rw [RelationshipGraph.departing, h.outgoingOf]
  rfl

theorem connections (h : Alike g g') (id : String) : g'.connections id = g.connections id := by
  rw [RelationshipGraph.connections, h.outgoingOf, h.incoming]
  rfl

theorem linked (h : Alike g g') (keep : Relationship α → Bool) :
    g'.linked keep = g.linked keep := by
  unfold RelationshipGraph.linked
  simp only [h.nodes, h.departing]

theorem dependencyChain (h : Alike g g') (id : String) :
    g'.dependencyChain id = g.dependencyChain id := by
  unfold RelationshipGraph.dependencyChain dependencies
  rw [h.has, h.linked]

theorem dependencyCycles (h : Alike g g') (id : String) :
    g'.dependencyCycles id = g.dependencyCycles id := by
  unfold RelationshipGraph.dependencyCycles dependencies
  rw [h.has, h.linked]

theorem components (h : Alike g g') : g'.components = g.components := by
  unfold RelationshipGraph.components
  rw [h.linked]

theorem issues (h : Alike g g') : g'.issues = g.issues := by
  rw [RelationshipGraph.issues, h.outgoing]
  rfl

theorem trailsFrom (h : Alike g g') (steps : Nat) (trail : List String) :
    g'.trailsFrom steps trail = g.trailsFrom steps trail := by
  induction steps generalizing trail with
  | zero => cases trail <;> rfl
  | succ steps ih =>
    cases trail with
    | nil => rfl
    | cons v trail =>
      rw [RelationshipGraph.trailsFrom, RelationshipGraph.trailsFrom, h.departing]
      simp only [ih]

variable [Scalar α]

theorem indirect (h : Alike g g') (id : String) (depth : Option (Extent Float)) (now : Moment) :
    g'.indirect id depth now = g.indirect id depth now := by
  unfold RelationshipGraph.indirect indirectWithin indirectAlong
  simp only [h.options, h.departing, h.trailsFrom]

theorem searchFrom (h : Alike g g') (goal : String) (limit : Nat) (seen : List String)
    (queue : List (Route α)) :
    g'.searchFrom goal limit seen queue = g.searchFrom goal limit seen queue := by
  induction seen, queue using RelationshipGraph.searchFrom.induct g goal limit with
  | case1 seen => rw [searchFrom_nil, searchFrom_nil]
  | case2 seen w queue full ih => rw [searchFrom_full _ full, searchFrom_full _ full, ih]
  | case3 seen w queue room way arrived =>
    rw [searchFrom_arrived g room arrived, searchFrom_arrived g' room (by rwa [h.departing])]
  | case4 seen w queue room seen' queue' onward ih =>
    rw [searchFrom_onward g room onward, searchFrom_onward g' room (by rwa [h.departing]), ih]

theorem searchPath? (h : Alike g g') (source target : String) (hops : Nat) :
    g'.searchPath? source target hops = g.searchPath? source target hops := by
  unfold RelationshipGraph.searchPath?
  simp only [h.has, h.searchFrom]

theorem averageConnectivity (h : Alike g g') :
    g'.averageConnectivity = g.averageConnectivity := by
  unfold RelationshipGraph.averageConnectivity
  rw [h.nodes, h.edges]

theorem metrics (h : Alike g g') : g'.metrics = g.metrics := by
  unfold RelationshipGraph.metrics hubs hubsAbove measured
  simp only [h.options, h.nodes, h.edges, h.averageConnectivity, h.components, h.connections]

/-- What an analysis shows beyond the searches are the edges at the entity. -/
theorem analyzeAnew (h : Alike g g') (id : String) (now : Moment)
    (direct : g'.relationshipsOf id true = g.relationshipsOf id true) :
    g'.analyzeAnew id now = g.analyzeAnew id now := by
  unfold RelationshipGraph.analyzeAnew
  rw [h.metrics, h.indirect, h.dependencyChain, h.dependencyCycles, direct]

end Alike

end EntityRules.RelationshipGraph
