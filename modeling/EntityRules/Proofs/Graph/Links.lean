import EntityRules.Graph.Search
import EntityRules.Proofs.Digraph.Tour
import EntityRules.Proofs.Graph.Coherence

/-! Stored edges as links between entities. -/

namespace EntityRules.RelationshipGraph

variable {α : Type} {g : RelationshipGraph α} {u v : String}

/-- A stored edge of a kind leads from one entity to another one. -/
def Links (g : RelationshipGraph α) (kind : Relationship α → Prop) (u v : String) : Prop :=
  u ≠ v ∧ ∃ r ∈ g.edges, r.source = u ∧ r.target = v ∧ kind r

/-- Some stored edge leads from one entity to another one. -/
def Leads (g : RelationshipGraph α) : String → String → Prop := g.Links fun _ => True

/-- An entity is reached from another one over any number of edges of a kind. -/
def Reaches (g : RelationshipGraph α) (kind : Relationship α → Prop) : String → String → Prop :=
  Relation.ReflTransGen (g.Links kind)

/-- Two entities reach each other over edges of a kind. -/
def Together (g : RelationshipGraph α) (kind : Relationship α → Prop) (u v : String) : Prop :=
  g.Reaches kind u v ∧ g.Reaches kind v u

theorem mem_outgoingOf (h : Coherent g) {r : Relationship α} :
    r ∈ g.outgoingOf u ↔ r ∈ g.edges ∧ r.source = u := by
  rw [outgoingOf_eq, ← h.bySource.filter_edgesOf u, List.mem_filter, decide_eq_true_eq]
  rfl

/-- The edges that a search follows. -/
theorem mem_departing (h : Coherent g) {r : Relationship α} :
    r ∈ g.departing u ↔ r ∈ g.edges ∧ r.source = u ∧ u ≠ r.target := by
  rw [departing, List.mem_filter, mem_outgoingOf h, and_assoc]
  refine and_congr_right fun _ => and_congr_right fun source => ?_
  simp [Relationship.isSelfReference, source]

theorem leads_iff (h : Coherent g) : g.Leads u v ↔ ∃ r ∈ g.departing u, r.target = v := by
  simp only [Leads, Links, mem_departing h]
  constructor
  · rintro ⟨differ, r, hr, departs, rfl, -⟩
    exact ⟨r, ⟨hr, departs, differ⟩, rfl⟩
  · rintro ⟨r, ⟨hr, departs, differ⟩, rfl⟩
    exact ⟨differ, r, hr, departs, rfl, trivial⟩

/-- The nodes are the entities that the graph knows. -/
theorem mem_nodes (h : Coherent g) : u ∈ g.nodes ↔ g.has u = true := by
  rw [has_iff_mem_mentioned h, ← toFinset_nodes h.bySource, List.mem_toFinset]

/-- Whatever reaches another entity is known. -/
theorem Reaches.has_first (h : Coherent g) {kind : Relationship α → Prop}
    (reached : g.Reaches kind u v) (differ : u ≠ v) : g.has u = true := by
  rcases Relation.ReflTransGen.cases_head reached with same | ⟨w, ⟨-, r, hr, source, -⟩, -⟩
  · exact absurd same differ
  · exact (has_iff_mem_mentioned h).mpr (mem_mentioned.mpr (.inl ⟨r, hr, source⟩))

/-- Whatever is reached from another entity is known. -/
theorem Reaches.has_last (h : Coherent g) {kind : Relationship α → Prop}
    (reached : g.Reaches kind u v) (differ : u ≠ v) : g.has v = true := by
  rcases Relation.ReflTransGen.cases_tail reached with same | ⟨w, -, -, r, hr, -, target, -⟩
  · exact absurd same.symm differ
  · exact (has_iff_mem_mentioned h).mpr (mem_mentioned.mpr (.inr (.inl ⟨r, hr, target⟩)))

theorem leads_linked (h : Coherent g) (keep : Relationship α → Bool) :
    (g.linked keep).Leads = g.Links (keep · = true) := by
  funext u v
  refine propext ?_
  simp only [Digraph.Leads, linked, Links, List.mem_map, List.mem_filter, mem_departing h]
  constructor
  · rintro ⟨r, ⟨⟨hr, source, differ⟩, kept⟩, rfl⟩
    exact ⟨differ, r, hr, source, rfl, kept⟩
  · rintro ⟨differ, r, hr, source, rfl, kept⟩
    exact ⟨r, ⟨⟨hr, source, differ⟩, kept⟩, rfl⟩

theorem closed_linked (g : RelationshipGraph α) (keep : Relationship α → Bool) :
    (g.linked keep).Closed := by
  intro u v edge
  obtain ⟨r, hr, rfl⟩ := List.mem_map.mp edge
  exact g.target_mem_nodes (List.mem_filter.mp hr).1

theorem mutual_linked (h : Coherent g) (keep : Relationship α → Bool) :
    (g.linked keep).Mutual = g.Together (keep · = true) := by
  funext u v
  rw [Digraph.Mutual, Digraph.Reaches, leads_linked h]
  rfl

end EntityRules.RelationshipGraph
