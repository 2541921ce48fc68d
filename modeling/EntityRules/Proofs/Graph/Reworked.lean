import EntityRules.Graph.Analysis
import EntityRules.Proofs.Graph.Coherence
import EntityRules.Proofs.Graph.Unmarked

/-! Graphs whose edges are worked on in place. -/

namespace EntityRules

variable {α : Type} {f : Relationship α → Relationship α}

/-- Work on edges that keeps what searches look at, and is the same for both views of an edge. -/
structure Relationship.Superficial (f : Relationship α → Relationship α) : Prop where
  source : ∀ r, (f r).source = r.source
  target : ∀ r, (f r).target = r.target
  type : ∀ r, (f r).type = r.type
  strength : ∀ r, (f r).strength = r.strength
  inverted : ∀ r, (f r).inverted = f r.inverted

namespace Relationship.Superficial

theorem stamped (now : Moment) : Superficial (RelationshipGraph.stamped (α := α) now) := by
  constructor <;> exact fun _ => rfl

theorem unmarked : Superficial (Relationship.unmarked (α := α)) := by
  constructor <;> exact fun _ => rfl

theorem isSelfReference (hf : Superficial f) (r : Relationship α) :
    (f r).isSelfReference = r.isSelfReference := by
  rw [Relationship.isSelfReference, hf.source, hf.target, ← Relationship.isSelfReference]

end Relationship.Superficial

/-- An analysis whose direct edges are worked on. -/
def RelationshipAnalysis.reworked (f : Relationship α → Relationship α)
    (a : RelationshipAnalysis α) : RelationshipAnalysis α :=
  { a with direct := a.direct.map f }

namespace RelationshipGraph

open Relationship (Superficial)

/-- The graph with all its edges worked on, on both sides. -/
def reworked (f : Relationship α → Relationship α) (g : RelationshipGraph α) :
    RelationshipGraph α :=
  { g with
    outgoing := g.outgoing.map fun m => (m.1, m.2.map f)
    incoming := g.incoming.map fun m => (m.1, m.2.map f) }

variable (g : RelationshipGraph α) (id : String)

theorem outgoingOf_reworked : (g.reworked f).outgoingOf id = (g.outgoingOf id).map f :=
  under_map g.outgoing f id

theorem incomingOf_reworked : (g.reworked f).incomingOf id = (g.incomingOf id).map f :=
  under_map g.incoming f id

theorem edges_reworked : (g.reworked f).edges = g.edges.map f := edgesOf_map g.outgoing f

theorem has_reworked : (g.reworked f).has id = g.has id := by
  unfold has reworked Members.has
  simp only [List.any_map, Function.comp_def]

theorem nodes_reworked (hf : Superficial f) : (g.reworked f).nodes = g.nodes :=
  nodesOf_map g.outgoing g.registered hf.target

theorem departing_reworked (hf : Superficial f) :
    (g.reworked f).departing id = (g.departing id).map f := by
  rw [departing, departing, outgoingOf_reworked, List.filter_map]
  simp only [Function.comp_def, hf.isSelfReference]

theorem relationshipsOf_reworked (hf : Superficial f) (both : Bool) :
    (g.reworked f).relationshipsOf id both = (g.relationshipsOf id both).map f := by
  unfold relationshipsOf
  rw [outgoingOf_reworked, incomingOf_reworked, List.map_append]
  congr 1
  split
  · rw [List.filter_map, List.map_map, List.map_map]
    simp only [Function.comp_def, hf.isSelfReference, hf.inverted]
  · rfl

theorem connections_reworked : (g.reworked f).connections id = g.connections id := by
  rw [connections, connections, outgoingOf_reworked, incomingOf_reworked, List.length_map,
    List.length_map]

theorem linked_reworked (hf : Superficial f) {keep : Relationship α → Bool}
    (hk : ∀ r, keep (f r) = keep r) : (g.reworked f).linked keep = g.linked keep := by
  unfold linked
  simp only [nodes_reworked g hf, departing_reworked g _ hf, List.filter_map, List.map_map,
    Function.comp_def, hf.target, hk]

theorem dependencies_reworked (hf : Superficial f) :
    (g.reworked f).dependencies = g.dependencies :=
  linked_reworked g hf fun r => by rw [hf.type]

theorem dependencyChain_reworked (hf : Superficial f) :
    (g.reworked f).dependencyChain id = g.dependencyChain id := by
  rw [dependencyChain, dependencyChain, has_reworked, dependencies_reworked g hf]

theorem dependencyCycles_reworked (hf : Superficial f) :
    (g.reworked f).dependencyCycles id = g.dependencyCycles id := by
  rw [dependencyCycles, dependencyCycles, has_reworked, dependencies_reworked g hf]

theorem components_reworked (hf : Superficial f) : (g.reworked f).components = g.components := by
  rw [components, components, linked_reworked g hf fun _ => rfl]

/-- The trails are the same, with the work done on the edges at their ends. -/
theorem trailsFrom_reworked (hf : Superficial f) (steps : Nat) (trail : List String) :
    (g.reworked f).trailsFrom steps trail =
      (g.trailsFrom steps trail).map fun t => (f t.1, t.2) := by
  induction steps generalizing trail with
  | zero => cases trail <;> rfl
  | succ steps ih =>
    cases trail with
    | nil => rfl
    | cons v trail =>
      rw [trailsFrom, trailsFrom, departing_reworked g v hf, List.flatMap_map, List.map_flatMap]
      apply List.flatMap_congr
      intro r _
      rw [hf.target]
      split
      · rfl
      · rw [List.map_cons, ih]

theorem firstArrivals_map (hf : Superficial f) (trails : List (Relationship α × List String))
    (reported : List String) :
    firstArrivals reported (trails.map fun t => (f t.1, t.2)) =
      (firstArrivals reported trails).map fun t => (f t.1, t.2) := by
  induction trails generalizing reported with
  | nil => rfl
  | cons t rest ih =>
    rw [List.map_cons, firstArrivals, firstArrivals, hf.target]
    split
    · exact ih _
    · rw [List.map_cons, ih]

variable [Scalar α]

theorem indirectAlong_reworked (hf : Superficial f) (now : Moment) (last : Relationship α)
    (trail : List String) :
    (g.reworked f).indirectAlong id now (f last) trail = g.indirectAlong id now last trail := by
  rw [indirectAlong, indirectAlong, hf.target, hf.strength]
  rfl

theorem indirectWithin_reworked (hf : Superficial f) (steps : Nat) (now : Moment) :
    (g.reworked f).indirectWithin id steps now = g.indirectWithin id steps now := by
  unfold indirectWithin
  simp only [departing_reworked g id hf, trailsFrom_reworked g hf, List.map_map, List.filter_map,
    firstArrivals_map hf, Function.comp_def, hf.target, List.mapM_map,
    indirectAlong_reworked g id hf]

theorem indirect_reworked (hf : Superficial f) (depth : Option (Extent Float)) (now : Moment) :
    (g.reworked f).indirect id depth now = g.indirect id depth now := by
  unfold indirect
  simp only [indirectWithin_reworked g id hf]
  rfl

theorem follow_map (hf : Superficial f) (w : Route α) (goal : String) (seen : List String)
    (queue : List (Route α)) (edges : List (Relationship α)) :
    w.follow goal seen queue (edges.map f) = w.follow goal seen queue edges := by
  have along : ∀ r, w.along (f r) = w.along r := fun r => by
    rw [Route.along, Route.along, hf.target, hf.strength]
  induction edges generalizing seen queue with
  | nil => rfl
  | cons r rest ih => rw [List.map_cons, Route.follow, Route.follow, hf.target, along, ih, ih]

theorem searchFrom_reworked (hf : Superficial f) (goal : String) (limit : Nat) (seen : List String)
    (queue : List (Route α)) :
    (g.reworked f).searchFrom goal limit seen queue = g.searchFrom goal limit seen queue := by
  have follow : ∀ (w : Route α) (seen : List String) (queue : List (Route α)),
      w.follow goal seen queue ((g.reworked f).departing w.last) =
        w.follow goal seen queue (g.departing w.last) := fun w seen queue => by
    rw [departing_reworked g _ hf, follow_map hf]
  induction seen, queue using searchFrom.induct g goal limit with
  | case1 seen => rw [searchFrom_nil, searchFrom_nil]
  | case2 seen w queue full ih => rw [searchFrom_full _ full, searchFrom_full _ full, ih]
  | case3 seen w queue room way arrived =>
    rw [searchFrom_arrived g room arrived, searchFrom_arrived _ room (by rwa [follow])]
  | case4 seen w queue room seen' queue' onward ih =>
    rw [searchFrom_onward g room onward, searchFrom_onward _ room (by rwa [follow]), ih]

theorem searchPath?_reworked (hf : Superficial f) (source target : String) (hops : Nat) :
    (g.reworked f).searchPath? source target hops = g.searchPath? source target hops := by
  unfold searchPath?
  simp only [has_reworked, searchFrom_reworked g hf]

theorem averageConnectivity_reworked (hf : Superficial f) :
    (g.reworked f).averageConnectivity = g.averageConnectivity := by
  rw [averageConnectivity, averageConnectivity, nodes_reworked g hf, edges_reworked,
    List.length_map]

theorem hubs_reworked (hf : Superficial f) : (g.reworked f).hubs = g.hubs := by
  unfold hubs hubsAbove
  simp only [nodes_reworked g hf, averageConnectivity_reworked g hf, connections_reworked]
  rfl

theorem metrics_reworked (hf : Superficial f) : (g.reworked f).metrics = g.metrics := by
  unfold metrics measured
  simp only [hubs_reworked g hf, nodes_reworked g hf, averageConnectivity_reworked g hf,
    connections_reworked, components_reworked g hf, edges_reworked, List.length_map]

theorem scoreOf_map (hf : Superficial f) (direct : List (Relationship α)) :
    scoreOf (direct.map f) = scoreOf direct := by
  unfold scoreOf
  simp only [List.isEmpty_map, List.length_map, List.map_map, Function.comp_def, hf.strength]

/-- An analysis shows the work at the direct edges only. -/
theorem analyzeAnew_reworked (hf : Superficial f) (now : Moment) :
    (g.reworked f).analyzeAnew id now =
      (g.analyzeAnew id now).map (RelationshipAnalysis.reworked f) := by
  unfold analyzeAnew
  simp only [metrics_reworked g hf, indirect_reworked g id hf, relationshipsOf_reworked g id hf,
    dependencyChain_reworked g id hf, dependencyCycles_reworked g id hf, scoreOf_map hf]
  cases g.metrics with
  | error why => rfl
  | ok metrics =>
    cases (g.indirect id none now).mapError GraphTrouble.extent with
    | error why => rfl
    | ok indirect => rfl

end RelationshipGraph

end EntityRules
