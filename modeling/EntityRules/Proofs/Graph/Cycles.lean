import EntityRules.Proofs.Digraph.Cycles
import EntityRules.Proofs.Graph.Links

/-! The reported cycles of dependencies are circuits, and no group with a circuit is missed. -/

namespace EntityRules.RelationshipGraph

open EntityRules.Digraph (IsCircuit)

variable {α : Type} {g : RelationshipGraph α} {id x : String} {c : List String}

/-- One entity needs the other one. -/
def IsNeed (r : Relationship α) : Prop := r.type = .dependency ∨ r.type = .prerequisite

theorem isDependency_eq (r : Relationship α) : (r.type.isDependency = true) = IsNeed r := by
  cases type : r.type <;> simp [IsNeed, RelationshipType.isDependency, type]

theorem leads_dependencies (h : Coherent g) : g.dependencies.Leads = g.Links IsNeed := by
  simp only [dependencies, leads_linked h, isDependency_eq]

theorem reaches_dependencies (h : Coherent g) : g.dependencies.Reaches = g.Reaches IsNeed := by
  rw [Digraph.Reaches, leads_dependencies h]
  rfl

theorem mutual_dependencies (h : Coherent g) : g.dependencies.Mutual = g.Together IsNeed := by
  funext u v
  rw [Digraph.Mutual, reaches_dependencies h]
  rfl

theorem loopless_dependencies (h : Coherent g) : g.dependencies.Loopless := by
  intro v edge
  rw [leads_dependencies h] at edge
  exact edge.1 rfl

theorem closed_dependencies (g : RelationshipGraph α) : g.dependencies.Closed := g.closed_linked _

theorem circuit_dependencyCycles (h : Coherent g) (hc : c ∈ g.dependencyCycles id) :
    IsCircuit (g.Links IsNeed) c ∧ ∀ x ∈ c, g.Reaches IsNeed id x := by
  unfold dependencyCycles at hc
  split at hc
  · have found := Digraph.circuit_cyclesFrom g.closed_dependencies (loopless_dependencies h)
      ((mem_nodes h).mpr ‹_›) hc
    rwa [leads_dependencies h, reaches_dependencies h] at found
  · cases hc

/-- A circuit that an entity leads to makes it known to the graph. -/
theorem has_of_circuit (h : Coherent g) (circuit : IsCircuit (g.Links IsNeed) c) (hx : x ∈ c)
    (reached : g.Reaches IsNeed id x) : g.has id = true := by
  by_cases same : id = x
  · obtain ⟨y, hy, differ⟩ := circuit.exists_ne x
    exact same ▸ Reaches.has_first h (circuit.reaches hx hy) differ
  · exact reached.has_first h same

theorem exists_dependencyCycles (h : Coherent g) (circuit : IsCircuit (g.Links IsNeed) c)
    (hx : x ∈ c) (reached : g.Reaches IsNeed id x) :
    ∃ c' ∈ g.dependencyCycles id, ∀ z ∈ c', g.Together IsNeed x z := by
  have known := has_of_circuit h circuit hx reached
  obtain ⟨y, hy, differ⟩ := circuit.exists_ne x
  have same : g.dependencies.Mutual x y := by
    rw [mutual_dependencies h]
    exact ⟨circuit.reaches hx hy, circuit.reaches hy hx⟩
  rw [← reaches_dependencies h] at reached
  rw [dependencyCycles, if_pos known, ← mutual_dependencies h]
  exact Digraph.exists_cyclesFrom g.closed_dependencies (loopless_dependencies h)
    ((mem_nodes h).mpr known) reached same differ

/-- The reported cycles are circuits that the entity leads to, and every circuit that it leads to
shares its component with a reported one. Nothing is reported just when there is no such circuit. -/
theorem dependencyCycles_circuits [Scalar α] (h : Reachable g) (id : String) :
    (∀ c ∈ g.dependencyCycles id,
      IsCircuit (g.Links IsNeed) c ∧ ∀ x ∈ c, g.Reaches IsNeed id x) ∧
    (∀ c x, IsCircuit (g.Links IsNeed) c → x ∈ c → g.Reaches IsNeed id x →
      ∃ c' ∈ g.dependencyCycles id, ∀ z ∈ c', g.Together IsNeed x z) ∧
    (g.dependencyCycles id = [] ↔
      ¬∃ c x, IsCircuit (g.Links IsNeed) c ∧ x ∈ c ∧ g.Reaches IsNeed id x) ∧
    (g.has id = false → g.dependencyCycles id = []) := by
  have coherent := coherent_reachable h
  refine ⟨fun c hc => circuit_dependencyCycles coherent hc,
    fun c x circuit hx reached => exists_dependencyCycles coherent circuit hx reached, ?_, ?_⟩
  · constructor
    · rintro none ⟨c, x, circuit, hx, reached⟩
      obtain ⟨c', hc', -⟩ := exists_dependencyCycles coherent circuit hx reached
      exact List.not_mem_nil (none ▸ hc')
    · intro none
      refine List.eq_nil_iff_forall_not_mem.mpr fun c hc => none ?_
      obtain ⟨circuit, reached⟩ := circuit_dependencyCycles coherent hc
      obtain ⟨x, hx, -⟩ := circuit.exists_ne id
      exact ⟨c, x, circuit, hx, reached x hx⟩
  · intro unknown
    rw [dependencyCycles, unknown]
    rfl

namespace Sample

/-- An edge of dependency. -/
def need (id source target : String) : Relationship Float :=
  { edge id source target with type := .dependency }

/-- Two circuits through one entity, the second of which is closed by an edge that comes to an
entity already left. -/
def tangle : List (GraphStep Float) :=
  [.add (need "first" "a" "b") noon, .add (need "second" "b" "c") noon,
    .add { edge "third" "c" "b" with type := .prerequisite } noon,
    .add (need "fourth" "a" "d") noon, .add (need "fifth" "d" "c") noon,
    .add (need "sixth" "c" "d") noon, .add (edge "back" "d" "a") noon,
    .add (need "loop" "a" "a") noon]

end Sample

theorem dependencyCycles_circuits_tangle : ∃ g : RelationshipGraph Float, Reachable g ∧
    g.dependencyCycles "a" = [["b", "c", "b"], ["c", "d", "c"]] ∧
      (∃ c' ∈ g.dependencyCycles "a", ∀ z ∈ c', g.Together IsNeed "d" z) ∧
      g.dependencyCycles "e" = [] := by
  obtain ⟨g, hg⟩ : ∃ g, create Sample.options Sample.noon = .ok g := ⟨_, rfl⟩
  have h := Reachable.run Sample.tangle (.created hg)
  have cycles : (Sample.tangle.foldl GraphStep.apply g).dependencyCycles "a" =
      [["b", "c", "b"], ["c", "d", "c"]] := by
    cases hg
    decide +kernel
  obtain ⟨sound, complete, -, -⟩ := dependencyCycles_circuits h "a"
  obtain ⟨circuit, reached⟩ := sound ["c", "d", "c"] (cycles ▸ by decide)
  refine ⟨_, h, cycles, complete _ "d" circuit (by decide) (reached "d" (by decide)), ?_⟩
  refine (dependencyCycles_circuits h "e").2.2.2 ?_
  cases hg
  decide +kernel

end EntityRules.RelationshipGraph
