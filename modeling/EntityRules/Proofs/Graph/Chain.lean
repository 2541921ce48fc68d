import EntityRules.Proofs.Digraph.Preorder
import EntityRules.Proofs.Graph.Cycles

/-! What an entity depends on, directly or through others, in the order of a recursive visit. -/

namespace EntityRules.RelationshipGraph

open EntityRules.Digraph (Visits)

variable {α : Type} {g : RelationshipGraph α} {id x : String} {front back : List String}

instance (r : Relationship α) : Decidable (IsNeed r) := inferInstanceAs (Decidable (_ ∨ _))

/-- What the stored edges of dependency lead to from an entity, edges to itself left out. -/
def needs (g : RelationshipGraph α) (id : String) : List String :=
  (g.edges.filter fun r => r.source = id ∧ id ≠ r.target ∧ IsNeed r).map (·.target)

/-- The edges are followed in the order in which they are stored. -/
theorem next_dependencies (h : Coherent g) : g.dependencies.next = g.needs := by
  funext u
  have own : g.departing u = (g.edges.filter (·.source = u)).filter (!·.isSelfReference) := by
    rw [departing, outgoingOf_eq, ← h.bySource.filter_edgesOf u]
    rfl
  simp only [dependencies, linked, needs, own, List.filter_filter]
  refine congrArg _ (List.filter_congr fun r _ => ?_)
  rw [Bool.eq_iff_iff]
  by_cases source : r.source = u
  · simp [source, Relationship.isSelfReference, isDependency_eq, and_comm]
  · simp [source]

/-- What comes later in a chain is needed by something before it. -/
theorem exists_needs (h : Visits g.needs [] [id] (front ++ x :: back)) (later : front ≠ []) :
    ∃ y ∈ front, x ∈ g.needs y := by
  have entered : front ++ [x] <+: front ++ x :: back := ⟨back, by simp⟩
  rcases h.of_prefix entered with old | first | behind
  · simp at old
  · have nodup := h.nodup .nil
    have head := h.head
    cases front with
    | nil => exact absurd rfl later
    | cons y front =>
      obtain rfl : y = id := by simpa using head
      rw [List.mem_singleton.mp first] at nodup
      simp at nodup
  · exact behind

theorem mem_needs (h : Coherent g) {u v : String} : v ∈ g.needs u ↔ g.Links IsNeed u v := by
  rw [← next_dependencies h, ← leads_dependencies h]
  rfl

/-- The chain of an entity is the closure of the edges of dependency, each entity once, in the order
of the recursive visit; an unknown entity has an empty one. -/
theorem dependencyChain_closure [Scalar α] (h : Reachable g) (id : String) :
    (g.has id = true →
      (g.dependencyChain id).head? = some id ∧ (g.dependencyChain id).Nodup ∧
      (∀ x, x ∈ g.dependencyChain id ↔ g.Reaches IsNeed id x) ∧
      (∀ order, Visits g.needs [] [id] order ↔ order = g.dependencyChain id) ∧
      ∀ front x back, g.dependencyChain id = front ++ x :: back → front ≠ [] →
        ∃ y ∈ front, g.Links IsNeed y x) ∧
    (g.has id = false → g.dependencyChain id = []) := by
  have coherent := coherent_reachable h
  constructor
  · intro known
    have visit := Digraph.visits_reachable g.closed_dependencies ((mem_nodes coherent).mpr known)
    have chain : g.dependencyChain id = g.dependencies.reachable id := by
      rw [dependencyChain, if_pos known]
    have closure := fun x => visit.mem_iff (x := x)
    rw [next_dependencies coherent, ← chain] at visit
    rw [reaches_dependencies coherent, ← chain] at closure
    refine ⟨visit.head, visit.nodup .nil, closure, fun order => ⟨visit.unique, ?_⟩, ?_⟩
    · rintro rfl
      exact visit
    · intro front x back split later
      simp only [← mem_needs coherent]
      exact exists_needs (split ▸ visit) later
  · intro unknown
    rw [dependencyChain, unknown]
    rfl

theorem dependencyChain_closure_tangle : ∃ g : RelationshipGraph Float, Reachable g ∧
    g.dependencyChain "a" = ["a", "b", "c", "d"] ∧ Visits g.needs [] ["a"] ["a", "b", "c", "d"] ∧
      g.Reaches IsNeed "a" "d" ∧ g.dependencyChain "e" = [] := by
  obtain ⟨g, hg⟩ : ∃ g, create Sample.options Sample.noon = .ok g := ⟨_, rfl⟩
  have h := Reachable.run Sample.tangle (.created hg)
  have known : (Sample.tangle.foldl GraphStep.apply g).has "a" = true := by
    cases hg
    decide +kernel
  have chain : (Sample.tangle.foldl GraphStep.apply g).dependencyChain "a" =
      ["a", "b", "c", "d"] := by
    cases hg
    decide +kernel
  obtain ⟨-, -, closure, visit, -⟩ := (dependencyChain_closure h "a").1 known
  refine ⟨_, h, chain, (visit _).mpr chain.symm, (closure "d").mp (chain ▸ by decide), ?_⟩
  refine (dependencyChain_closure h "e").2 ?_
  cases hg
  decide +kernel

end EntityRules.RelationshipGraph
