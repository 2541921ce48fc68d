import EntityRules.Proofs.Graph.Shared
import EntityRules.Proofs.Graph.Snapshot

/-! Snapshots of a graph whose edges are objects. -/

namespace EntityRules

open RelationshipGraph (edgesOf)

variable {α : Type}

namespace ObjectSnapshot

theorem edgeValues_numbered (n : Nat) (ms : Members (List (Relationship α))) :
    edgeValues (numbered n ms) = ms := by
  induction ms generalizing n with
  | nil => rfl
  | cons m rest ih =>
    rw [numbered, edgeValues, List.map_cons, ← edgeValues, ih, List.map_map]
    exact congrArg (fun edges => (m.1, edges) :: rest) (List.zipIdx_map_fst n m.2)

theorem values_ofValues (s : GraphSnapshot α) : (ofValues s).values = s := by
  rw [values, ofValues, edgeValues_numbered]

theorem objects_numbered (n : Nat) (ms : Members (List (Relationship α))) :
    (edgesOf (numbered n ms)).map (·.object) = List.range' n (edgesOf ms).length ∧
      (edgesOf (numbered n ms)).map (·.notes) = List.range' n (edgesOf ms).length := by
  induction ms generalizing n with
  | nil => exact ⟨rfl, rfl⟩
  | cons m rest ih =>
    have own : ((m.2.zipIdx n).map Prod.snd) = List.range' n m.2.length := List.zipIdx_map_snd n m.2
    obtain ⟨objects, notes⟩ := ih (n + m.2.length)
    have whole : List.range' n (edgesOf (m :: rest)).length =
        List.range' n m.2.length ++ List.range' (n + m.2.length) (edgesOf rest).length := by
      rw [edgesOf, List.flatMap_cons, List.length_append, List.range'_append_1]
      rfl
    rw [numbered, edgesOf, List.flatMap_cons, ← edgesOf, List.map_append, List.map_append, objects,
      notes, whole, ← own]
    simp only [List.map_map, Function.comp_def, and_self]

theorem listsOnce_ofValues (s : GraphSnapshot α) : (ofValues s).ListsOnce := by
  rw [ListsOnce, ofValues, (objects_numbered 0 s.relationships).1]
  exact List.nodup_range'

theorem nodup_notes_ofValues (s : GraphSnapshot α) :
    ((edgesOf (ofValues s).relationships).map (·.notes)).Nodup := by
  rw [ofValues, (objects_numbered 0 s.relationships).2]
  exact List.nodup_range'

end ObjectSnapshot

namespace ObjectGraph

open EdgeObject (Consistent)
open RelationshipGraph (SameAnswers SameEdges SameLookups unmarked)

variable {g : ObjectGraph α}

/-- What leaves the indexes as they are is seen as it is. -/
theorem view_keep {v : RelationshipGraph α} (outgoing : v.outgoing = g.view.outgoing)
    (incoming : v.incoming = g.view.incoming) : (g.keep v).view = v := by
  change { v with outgoing := g.view.outgoing, incoming := g.view.incoming } = v
  rw [← outgoing, ← incoming]

theorem view_register (g : ObjectGraph α) (id : String) (now : Moment) :
    (g.register id now).view = g.view.register id now := by
  unfold register RelationshipGraph.register
  split
  · rfl
  · rfl

theorem removeWhere_forgets (g : ObjectGraph α) (source target : String)
    (wanted : RelationshipType → Bool) (now : Moment) :
    (g.removeWhere source target wanted now).2 = g ∨
      (g.removeWhere source target wanted now).2.view.Forgetful ∧
        (g.removeWhere source target wanted now).2.registered = g.registered := by
  unfold removeWhere
  dsimp only
  split
  · exact .inl rfl
  · exact .inr ⟨⟨rfl, rfl⟩, rfl⟩

theorem remove_forgets (g : ObjectGraph α) (source target : String) (type : Option String)
    (now : Moment) :
    (g.remove source target type now).2 = g ∨
      (g.remove source target type now).2.view.Forgetful ∧
        (g.remove source target type now).2.registered = g.registered := by
  unfold remove
  split
  · exact removeWhere_forgets ..
  · split
    · exact removeWhere_forgets ..
    · exact .inl rfl

/-- However often the edges are marked, only marks change. -/
theorem unmarked_marked (g : ObjectGraph α) (now : Moment)
    (ms : Members (List (EdgeObject Origin α))) :
    unmarked (edgeValues (ms.map fun m => (m.1, m.2.map (g.marked now)))) =
      unmarked (edgeValues ms) := by
  have same : ∀ e, (g.marked now e).edge.unmarked = e.edge.unmarked := by
    intro e
    exact repeat_stamped (f := Relationship.unmarked) (fun _ => rfl) _ _
  unfold unmarked edgeValues
  simp only [List.map_map, Function.comp_def, same]

theorem sameEdges_validate (g : ObjectGraph α) (now : Moment) :
    SameEdges g.view (g.validate now).2.view :=
  ⟨unmarked_marked g now g.outgoing, unmarked_marked g now g.incoming, rfl⟩

variable [Scalar α]

theorem view_analyze (g : ObjectGraph α) (id : String) (now : Moment) :
    (g.analyze id now).2.view = (g.view.analyze id now).2 := by
  have same := RelationshipGraph.sameContents_analyze g.view id now
  exact view_keep same.outgoing same.incoming

theorem view_path (g : ObjectGraph α) (source target : String) (hops : Option (Extent Float)) :
    (g.path source target hops).2.view = (g.view.path source target hops).2 := by
  have same := RelationshipGraph.sameContents_path g.view source target hops
  exact view_keep same.outgoing same.incoming

theorem nodup_registered_step (once : g.registered.Nodup) (s : ObjectStep α) :
    (s.apply g).registered.Nodup := by
  cases s with
  | register id now =>
    exact RelationshipGraph.nodup_registered_step (g := g.view) once (.register id now)
  | add e now => exact once
  | remove source target type now =>
    rcases remove_forgets g source target type now with same | ⟨-, same⟩
    · rw [ObjectStep.apply, same]
      exact once
    · rw [ObjectStep.apply, same]
      exact once
  | load s => exact Members.nodup_eraseDups s.nodes
  | validate now => exact once
  | clearCaches => exact once
  | analyze id now =>
    exact RelationshipGraph.nodup_registered_step (g := g.view) once (.analyze id now)
  | path source target hops =>
    exact RelationshipGraph.nodup_registered_step (g := g.view) once (.path source target hops)

theorem pathsCurrent_step (h : g.view.PathsCurrent) (s : ObjectStep α) :
    (s.apply g).view.PathsCurrent := by
  cases s with
  | register id now =>
    rw [ObjectStep.apply, view_register]
    exact h.step (.register id now)
  | add e now => exact RelationshipGraph.Forgetful.pathsCurrent ⟨rfl, rfl⟩
  | remove source target type now =>
    rcases remove_forgets g source target type now with same | ⟨forgotten, -⟩
    · rw [ObjectStep.apply, same]
      exact h
    · exact forgotten.pathsCurrent
  | load s => exact RelationshipGraph.Forgetful.pathsCurrent ⟨rfl, rfl⟩
  | validate now =>
    exact fun e he => ((sameEdges_validate g now).searchPath? rfl ..).trans (h e he)
  | clearCaches => exact RelationshipGraph.Forgetful.pathsCurrent ⟨rfl, rfl⟩
  | analyze id now =>
    rw [ObjectStep.apply, view_analyze]
    exact h.step (.analyze id now)
  | path source target hops =>
    rw [ObjectStep.apply, view_path]
    exact h.step (.path source target hops)

variable {kind : ObjectSnapshot α → Prop}

theorem remembered_reachable (h : Reachable kind g) :
    g.registered.Nodup ∧ g.view.PathsCurrent := by
  induction h with
  | created made =>
    obtain ⟨v, empty, rfl⟩ := map_eq_ok.mp made
    obtain ⟨-, -, registered, -⟩ := RelationshipGraph.create_eq_ok empty
    have forgotten := RelationshipGraph.forgetful_create empty
    constructor
    · change v.registered.Nodup
      rw [registered]
      exact List.nodup_nil
    · exact RelationshipGraph.Forgetful.pathsCurrent ⟨forgotten.1, forgotten.2⟩
  | step s _ _ _ ih => exact ⟨nodup_registered_step ih.1 s, pathsCurrent_step ih.2 s⟩

/-- Loading replaces whatever a graph holds by the settled snapshot, whichever edges of it are one
object. A graph of the same settings that loads what a graph hands out hands out the same, answers
like it, and shows the edges of an entity as it does but for the order of those to it; that needs
that no snapshot listed an edge twice. -/
theorem load_exported :
    (∀ (g : ObjectGraph α) (s : ObjectSnapshot α), (Members.names s.relationships).Nodup →
      (g.load s).view.snapshot = s.values.settled ∧
        ((∀ id ∈ s.nodes, NodeName.isText id = true) →
          (g.load s).view.exported = .ok s.values.settled)) ∧
    ∀ (kind : ObjectSnapshot α → Prop) (g h : ObjectGraph α) (s : ObjectSnapshot α),
      Reachable kind g → h.options = g.options → g.view.exported = .ok s.values →
        (h.load s).view.exported = .ok s.values ∧ SameAnswers g.view (h.load s).view ∧
          ((∀ t, kind t → t.ListsOnce) → SameLookups g.view (h.load s).view) := by
  constructor
  · intro g s distinct
    have names : (Members.names s.values.relationships).Nodup := by
      have same : Members.names s.values.relationships = Members.names s.relationships :=
        List.map_map
      rwa [same]
    rw [view_load]
    exact ⟨RelationshipGraph.snapshot_load _ names, RelationshipGraph.exported_load _ names⟩
  · intro kind g h s reached settings handed
    have coherent := coherent_reachable reached
    obtain ⟨once, current⟩ := remembered_reachable reached
    obtain ⟨again, answers⟩ :=
      coherent.paired.reloaded (h := h.view) once current settings handed
    rw [view_load]
    refine ⟨again, answers, fun listed => ?_⟩
    exact (coherent.coherent_view (separate_reachable reached listed)).sameLookups
      (RelationshipGraph.coherent_load h.view s.values) answers.outgoing

/-- A graph of which no edge stands in two places looks the same after it was handed out and loaded.
-/
theorem load_exported_apart : ∃ g h : ObjectGraph Float, Reachable ObjectSnapshot.ListsOnce g ∧
    h.options = g.options ∧ (Members.names Sample.apart.relationships).Nodup ∧
    (∀ id ∈ Sample.apart.nodes, NodeName.isText id = true) ∧
    (h.load Sample.apart).view.exported = .ok Sample.apart.values.settled ∧
    ∃ s : ObjectSnapshot Float, g.view.exported = .ok s.values ∧
      (h.load s).view.exported = .ok s.values ∧ SameAnswers g.view (h.load s).view ∧
        SameLookups g.view (h.load s).view := by
  obtain ⟨e, made⟩ : ∃ e, create RelationshipGraph.Sample.options
    RelationshipGraph.Sample.noon = .ok e := ⟨_, rfl⟩
  have once : Sample.apart.ListsOnce := by decide
  have fits : Consistent (edgesOf Sample.apart.relationships) := .of_nodup once (by decide)
  have reached : Reachable ObjectSnapshot.ListsOnce _ :=
    Sample.reachable_steps made once fits (by cases made; decide)
  have distinct : (Members.names Sample.apart.relationships).Nodup := by decide
  have texts : ∀ id ∈ Sample.apart.nodes, NodeName.isText id = true := by decide
  have settings : e.options = ((Sample.steps Sample.apart).foldl ObjectStep.apply e).options := rfl
  have handed : ((Sample.steps Sample.apart).foldl ObjectStep.apply e).view.exported =
      .ok (ObjectSnapshot.ofValues
        ((Sample.steps Sample.apart).foldl ObjectStep.apply e).view.snapshot).values := by
    rw [ObjectSnapshot.values_ofValues]
    cases made
    rfl
  obtain ⟨loads, answers⟩ := load_exported (α := Float)
  obtain ⟨again, same, looked⟩ := answers _ _ e _ reached settings handed
  exact ⟨_, e, reached, settings, distinct, texts, (loads e _ distinct).2 texts, _, handed, again,
    same, looked fun _ listed => listed⟩

/-- An edge that a snapshot listed twice, and that was replaced since then, is found again in one of
its places after the graph was handed out and loaded. -/
theorem not_sameLookups_twice : ∃ g h : ObjectGraph Float, Reachable (fun _ => True) g ∧
    h.options = g.options ∧ ∃ s : ObjectSnapshot Float, g.view.exported = .ok s.values ∧
      (g.view.relationshipsOf "b" true).map (·.id) = ["new-reverse", "new-reverse"] ∧
      ((h.load s).view.relationshipsOf "b" true).map (·.id) = ["new-reverse", "old-reverse"] ∧
      ¬ SameLookups g.view (h.load s).view := by
  obtain ⟨e, made⟩ : ∃ e, create RelationshipGraph.Sample.options
    RelationshipGraph.Sample.noon = .ok e := ⟨_, rfl⟩
  have reached : Reachable (fun _ => True) _ :=
    Sample.reachable_steps made trivial Sample.consistent_twice (by cases made; decide)
  have handed : ((Sample.steps Sample.twice).foldl ObjectStep.apply e).view.exported =
      .ok (ObjectSnapshot.ofValues
        ((Sample.steps Sample.twice).foldl ObjectStep.apply e).view.snapshot).values := by
    rw [ObjectSnapshot.values_ofValues]
    cases made
    rfl
  have seen : (((Sample.steps Sample.twice).foldl ObjectStep.apply e).view.relationshipsOf "b"
      true).map (·.id) = ["new-reverse", "new-reverse"] := by
    cases made
    decide
  have seen' : ((e.load (.ofValues ((Sample.steps Sample.twice).foldl ObjectStep.apply
      e).view.snapshot)).view.relationshipsOf "b" true).map (·.id) =
        ["new-reverse", "old-reverse"] := by
    cases made
    decide
  refine ⟨_, e, reached, rfl, _, handed, seen, seen', fun same => ?_⟩
  have perm := (same.perm "b").map (·.id)
  rw [seen, seen'] at perm
  have listed : "old-reverse" ∈ ["new-reverse", "old-reverse"] := by decide
  exact absurd (perm.mem_iff.mp listed) (by decide)

end ObjectGraph

end EntityRules
