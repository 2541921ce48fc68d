import EntityRules.Proofs.Graph.Run

/-! Graphs up to the marks that validation leaves at their edges. -/

namespace EntityRules

variable {α : Type}

/-- An edge without the marks of its validations. -/
def Relationship.unmarked (r : Relationship α) : Relationship α :=
  { r with metadata := { r.metadata with validationCount := 0, lastValidated := none } }

namespace RelationshipGraph

/-- Edges under their names, without the marks of validations. -/
def unmarked (ms : Members (List (Relationship α))) : Members (List (Relationship α)) :=
  ms.map fun m => (m.1, m.2.map Relationship.unmarked)

/-- Graphs with the same nodes and, up to marks, the same edges in the same order. -/
structure SameEdges (g g' : RelationshipGraph α) : Prop where
  outgoing : unmarked g'.outgoing = unmarked g.outgoing
  incoming : unmarked g'.incoming = unmarked g.incoming
  registered : g'.registered = g.registered

theorem SameEdges.refl (g : RelationshipGraph α) : SameEdges g g := ⟨rfl, rfl, rfl⟩

theorem SameEdges.trans {g g' g'' : RelationshipGraph α} (h : SameEdges g g')
    (h' : SameEdges g' g'') : SameEdges g g'' :=
  ⟨h'.outgoing.trans h.outgoing, h'.incoming.trans h.incoming, h'.registered.trans h.registered⟩

theorem SameContents.sameEdges {g g' : RelationshipGraph α} (h : SameContents g g') :
    SameEdges g g' :=
  ⟨by rw [h.outgoing], by rw [h.incoming], h.registered⟩

/-- The edges that start at an entity, without marks. -/
theorem map_unmarked_outgoingOf (g : RelationshipGraph α) (id : String) :
    (g.outgoingOf id).map Relationship.unmarked =
      (Members.get? (unmarked g.outgoing) id).getD [] := by
  unfold outgoingOf unmarked
  induction g.outgoing with
  | nil => rfl
  | cons m rest ih =>
    rw [List.map_cons, Members.get?_cons, Members.get?_cons]
    split
    · rfl
    · exact ih

theorem unmarked_stamped (now : Moment) (ms : Members (List (Relationship α))) :
    unmarked (ms.map fun m => (m.1, m.2.map (stamped now))) = unmarked ms := by
  unfold unmarked
  rw [List.map_map]
  apply List.map_congr_left
  intro m _
  exact congrArg (Prod.mk m.1) (by rw [List.map_map]; rfl)

theorem sameEdges_validate (g : RelationshipGraph α) (now : Moment) :
    SameEdges g (g.validate now).2 :=
  ⟨unmarked_stamped now g.outgoing, unmarked_stamped now g.incoming, rfl⟩

/-- Registering leaves the graph as it is, or it tells the listeners. -/
theorem register_cases (g : RelationshipGraph α) (id : String) (now : Moment) :
    g.register id now = g ∨ (g.register id now).revision = g.revision + 1 := by
  unfold register
  split
  · exact .inl rfl
  · exact .inr rfl

theorem removeWhere_cases (g : RelationshipGraph α) (source target : String)
    (wanted : RelationshipType → Bool) (now : Moment) :
    (g.removeWhere source target wanted now).2 = g ∨
      (g.removeWhere source target wanted now).2.revision = g.revision + 1 := by
  unfold removeWhere
  split
  · exact .inr rfl
  · exact .inl rfl

/-- Removing leaves the graph as it is, or it tells the listeners. -/
theorem remove_cases (g : RelationshipGraph α) (source target : String) (type : Option String)
    (now : Moment) :
    (g.remove source target type now).2 = g ∨
      (g.remove source target type now).2.revision = g.revision + 1 := by
  unfold remove
  split
  · exact removeWhere_cases ..
  · split
    · exact removeWhere_cases ..
    · exact .inl rfl

variable [Scalar α]

/-- What a step does without a new revision leaves all nodes and edges, up to marks. -/
theorem sameEdges_of_revision {g : RelationshipGraph α} {s : GraphStep α}
    (h : (s.apply g).revision = g.revision) : SameEdges g (s.apply g) := by
  cases s with
  | register id now =>
    rcases register_cases g id now with same | told
    · rw [GraphStep.apply, same]
      exact .refl g
    · exact absurd (told.symm.trans h) (Nat.succ_ne_self _)
  | add r now => exact absurd h (Nat.succ_ne_self _)
  | remove source target type now =>
    rcases remove_cases g source target type now with same | told
    · rw [GraphStep.apply, same]
      exact .refl g
    · exact absurd (told.symm.trans h) (Nat.succ_ne_self _)
  | load s => exact absurd h (Nat.succ_ne_self _)
  | validate now => exact sameEdges_validate g now
  | clearCaches => exact absurd h (Nat.succ_ne_self _)
  | analyze id now => exact (sameContents_analyze g id now).sameEdges
  | path source target hops => exact (sameContents_path g source target hops).sameEdges

end RelationshipGraph

end EntityRules
