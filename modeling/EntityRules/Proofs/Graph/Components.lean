import EntityRules.Graph.Analysis
import EntityRules.Proofs.Digraph.Components
import EntityRules.Proofs.Graph.Links

/-! The groups that a graph reports are the classes of entities that reach each other. -/

namespace EntityRules.RelationshipGraph

open EntityRules.Digraph (ListsClasses)

variable {α : Type} {g : RelationshipGraph α}

theorem listsClasses_linked (h : Coherent g) (keep : Relationship α → Bool) :
    ListsClasses (g.Together (keep · = true)) (g.linked keep).components := by
  rw [← mutual_linked h]
  exact Digraph.listsClasses_components (g.closed_linked keep)

/-- Checking measures does not change them. -/
theorem checked_eq_ok {m m' : GraphMetrics α} (h : checked m = .ok m') : m' = m := by
  unfold checked at h
  split at h
  · cases h
  · split at h
    · exact (Except.ok.inj h).symm
    · cases h

theorem metrics_components [Scalar α] {m : GraphMetrics α} (h : g.metrics = .ok m) :
    m.components = g.components := by
  unfold metrics at h
  split at h
  · cases h
  · rw [checked_eq_ok h]
    rfl

/-- Components, groups and the components among the measures are what they are said to be. -/
theorem groups_listsClasses [Scalar α] (h : Reachable g) :
    ListsClasses (g.Together fun _ => True) g.components ∧
      (∀ least : α,
        ListsClasses (g.Together fun r => Scalar.le least r.strength = true) (g.groups least)) ∧
      ∀ m, g.metrics = .ok m → ListsClasses (g.Together fun _ => True) m.components := by
  have coherent := coherent_reachable h
  have kind : (fun _ : Relationship α => true = true) = fun _ => True := by simp
  have all : ListsClasses (g.Together fun _ => True) g.components :=
    kind ▸ listsClasses_linked coherent fun _ => true
  refine ⟨all, fun least => listsClasses_linked coherent _, fun m measured => ?_⟩
  rw [metrics_components measured]
  exact all

namespace Sample

/-- Three entities in a ring and a fourth one, tied to the ring by a weaker edge. -/
def ring : List (GraphStep Float) :=
  [.add (edge "first" "a" "b") noon, .add (edge "second" "b" "c") noon,
    .add (edge "third" "c" "a") noon, .add (edge "out" "b" "d") noon,
    .add { edge "back" "d" "b" with strength := 0.5 } noon, .add (edge "loop" "a" "a") noon]

end Sample

theorem groups_listsClasses_ring : ∃ g : RelationshipGraph Float, Reachable g ∧
    g.components = [["d", "c", "b", "a"]] ∧ g.groups 0.75 = [["c", "b", "a"]] ∧
      ListsClasses (g.Together fun _ => True) g.components ∧
      ListsClasses (g.Together fun r => Scalar.le 0.75 r.strength = true) (g.groups 0.75) := by
  obtain ⟨g, hg⟩ : ∃ g, create Sample.options Sample.noon = .ok g := ⟨_, rfl⟩
  have h := Reachable.run Sample.ring (.created hg)
  obtain ⟨all, strong, -⟩ := groups_listsClasses h
  refine ⟨_, h, ?_, ?_, all, strong _⟩
  · cases hg
    decide +kernel
  · cases hg
    decide +kernel

end EntityRules.RelationshipGraph
