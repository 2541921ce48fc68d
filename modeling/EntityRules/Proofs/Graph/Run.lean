import EntityRules.Graph.Analysis
import EntityRules.Proofs.Graph.Index

/-! Runs of a graph: what can be done with it, one step after another from an empty graph. -/

namespace EntityRules

/-- What is done with a graph. Look-ups that leave no trace in it are no steps of their own. -/
inductive GraphStep (α : Type) where
  | register (id : String) (now : Moment)
  | add (r : Relationship α) (now : Moment)
  | remove (source target : String) (type : Option String) (now : Moment)
  | load (s : GraphSnapshot α)
  | validate (now : Moment)
  | clearCaches
  | analyze (id : String) (now : Moment)
  | path (source target : String) (hops : Option (Extent Float))

variable {α : Type}

namespace RelationshipGraph

theorem create_eq_ok {options : GraphOptions α} {now : Moment} {g : RelationshipGraph α}
    (h : create options now = .ok g) :
    g.outgoing = [] ∧ g.incoming = [] ∧ g.registered = [] ∧ g.metadata = .fresh now := by
  unfold create at h
  cases ha : (ResultCache.create "relationship_analysis" options.cacheCapacity none :
      Except CapacityTrouble (ResultCache String (RelationshipAnalysis α) α)) with
  | error why => simp [ha, bind, Except.bind] at h
  | ok analyses =>
    cases hp : (ResultCache.create "relationship_paths" options.cacheCapacity none :
        Except CapacityTrouble (ResultCache (String × String × Bound) (GraphPath α) α)) with
    | error why => simp [ha, hp, bind, Except.bind] at h
    | ok paths =>
      simp only [ha, hp, bind, Except.bind, pure, Except.pure, Except.ok.injEq] at h
      subst h
      exact ⟨rfl, rfl, rfl, rfl⟩

/-- What a look-up leaves of a graph: everything but what it remembers. -/
structure SameContents (g g' : RelationshipGraph α) : Prop where
  options : g'.options = g.options
  outgoing : g'.outgoing = g.outgoing
  incoming : g'.incoming = g.incoming
  registered : g'.registered = g.registered
  metadata : g'.metadata = g.metadata
  revision : g'.revision = g.revision

theorem SameContents.refl (g : RelationshipGraph α) : SameContents g g := by
  constructor <;> rfl

end RelationshipGraph

variable [Scalar α]

/-- The graph after a step. -/
def GraphStep.apply (g : RelationshipGraph α) : GraphStep α → RelationshipGraph α
  | register id now => g.register id now
  | add r now => g.add r now
  | remove source target type now => (g.remove source target type now).2
  | load s => g.load s
  | validate now => (g.validate now).2
  | clearCaches => g.clearCaches
  | analyze id now => (g.analyze id now).2
  | path source target hops => (g.path source target hops).2

namespace RelationshipGraph

/-- The graphs that steps lead to from an empty one. -/
inductive Reachable : RelationshipGraph α → Prop where
  | created {options : GraphOptions α} {now : Moment} {g : RelationshipGraph α} :
    create options now = .ok g → Reachable g
  | step {g : RelationshipGraph α} (s : GraphStep α) : Reachable g → Reachable (s.apply g)

theorem Reachable.run {g : RelationshipGraph α} (steps : List (GraphStep α)) (h : Reachable g) :
    Reachable (steps.foldl GraphStep.apply g) := by
  induction steps generalizing g with
  | nil => exact h
  | cons s rest ih => exact ih (.step s h)

theorem sameContents_analyze (g : RelationshipGraph α) (id : String) (now : Moment) :
    SameContents g (g.analyze id now).2 := by
  unfold analyze
  split
  · constructor <;> rfl
  · dsimp only
    split
    · split <;> constructor <;> rfl
    · constructor <;> rfl

theorem sameContents_pathWithin (g : RelationshipGraph α) (source target : String)
    (bound : Bound) : SameContents g (g.pathWithin source target bound).2 := by
  unfold pathWithin
  split
  · exact .refl g
  · split
    · constructor <;> rfl
    · split <;> constructor <;> rfl

theorem sameContents_path (g : RelationshipGraph α) (source target : String)
    (hops : Option (Extent Float)) : SameContents g (g.path source target hops).2 := by
  unfold path
  dsimp only
  split
  · exact sameContents_pathWithin ..
  · unfold pathWithout
    split
    · exact .refl g
    · split
      · exact .refl g
      · constructor <;> rfl

end RelationshipGraph

end EntityRules
