import EntityRules.Proofs.Graph.Reloaded

/-! Graphs that share nothing: no object is handed in twice, no two have the same notes. -/

namespace EntityRules

open RelationshipGraph (Keyed edgesOf place putEdges under)

variable {α : Type}

namespace ObjectStep

/-- What is seen of a step. -/
def values : ObjectStep α → GraphStep α
  | register id now => .register id now
  | add e now => .add e.edge now
  | remove source target type now => .remove source target type now
  | load s => .load s.values
  | validate now => .validate now
  | clearCaches => .clearCaches
  | analyze id now => .analyze id now
  | path source target hops => .path source target hops

/-- What is handed in shares nothing with what is there, and nothing with itself. -/
def Alone (g : ObjectGraph α) : ObjectStep α → Prop
  | add e _ => ∀ o ∈ g.edges, o.object ≠ .given e.object ∧ o.notes ≠ .given e.notes
  | load s => s.ListsOnce ∧ ((edgesOf s.relationships).map (·.notes)).Nodup
  | _ => True

end ObjectStep

namespace ObjectGraph

/-- The graphs that steps lead to from an empty one if nothing is shared. -/
inductive Unshared [Scalar α] : ObjectGraph α → Prop where
  | created {options : GraphOptions α} {now : Moment} {g : ObjectGraph α} :
    create options now = .ok g → Unshared g
  | step {g : ObjectGraph α} (s : ObjectStep α) :
    Unshared g → s.Alone g → Unshared (s.apply g)

variable {g : ObjectGraph α} {e : EdgeObject Origin α} {now : Moment}

theorem alone_fits {s : ObjectStep α} (h : Coherent g)
    (alone : s.Alone g) : s.Fits g := by
  cases s with
  | add e now => exact h.consistent.cons_new alone
  | load s => exact .of_nodup alone.1 alone.2
  | _ => trivial

theorem Unshared.reachable [Scalar α] (h : Unshared g) : Reachable ObjectSnapshot.ListsOnce g := by
  induction h with
  | created made => exact .created made
  | step s _ alone ih =>
    refine .step s ih (alone_fits (coherent_reachable ih) alone) ?_
    rintro t rfl
    exact alone.1

/-- Every edge has notes of its own. -/
def OwnNotes (g : ObjectGraph α) : Prop :=
  ∀ e ∈ g.edges, ∀ o ∈ g.edges, e.notes = o.notes → e = o

theorem OwnNotes.add (c : Coherent g) (h : OwnNotes g) (new : ∀ o ∈ g.edges, o.notes ≠ e.notes)
    (now : Moment) : OwnNotes (g.add e now) := by
  intro a ha b hb same
  rcases c.of_mem_edges_add ha with new_a | old_a <;> rcases c.of_mem_edges_add hb with new_b | old_b
  · rw [new_a, new_b]
  · exact absurd (new_a ▸ same).symm (new b old_b)
  · exact absurd (new_b ▸ same) (new a old_a)
  · exact h a old_a b old_b same

theorem OwnNotes.remove (c : Coherent g) (h : OwnNotes g) (source target : String)
    (type : Option String) (now : Moment) : OwnNotes (g.remove source target type now).2 := by
  have kept : ∀ wanted, OwnNotes (g.removeWhere source target wanted now).2 :=
    fun wanted a ha b hb => h a (c.mem_edges_removeWhere.mp ha).1 b (c.mem_edges_removeWhere.mp hb).1
  unfold ObjectGraph.remove
  split
  · exact kept _
  · split
    · exact kept _
    · exact h

theorem notes_copies (s : ObjectSnapshot α) :
    s.copies.map (·.notes) = (edgesOf s.relationships).map fun e => Origin.copied e.notes := by
  rw [map_copies (k := fun _ e => Origin.copied e.notes) fun _ _ _ => rfl, edgesOf,
    List.map_flatMap]

theorem ownNotes_load (g : ObjectGraph α) {s : ObjectSnapshot α}
    (own : ((edgesOf s.relationships).map (·.notes)).Nodup) : OwnNotes (g.load s) := by
  have distinct : (s.copies.map (·.notes)).Nodup := by
    rw [notes_copies]
    have copied : Function.Injective Origin.copied := fun _ _ same => Origin.copied.inj same
    have distinct := own.map copied
    rwa [List.map_map] at distinct
  intro a ha b hb same
  exact List.inj_on_of_nodup_map distinct (RelationshipGraph.mem_edgesOf_indexBy.mp ha)
    (RelationshipGraph.mem_edgesOf_indexBy.mp hb) same

theorem OwnNotes.validate (h : OwnNotes g) (now : Moment) : OwnNotes (g.validate now).2 := by
  intro a ha b hb same
  rw [edges_validate] at ha hb
  obtain ⟨a, ha', rfl⟩ := List.mem_map.mp ha
  obtain ⟨b, hb', rfl⟩ := List.mem_map.mp hb
  rw [h a ha' b hb' same]

theorem ownNotes_unshared [Scalar α] (h : Unshared g) : OwnNotes g := by
  induction h with
  | created made =>
    obtain ⟨v, -, rfl⟩ := map_eq_ok.mp made
    exact fun a ha => absurd ha List.not_mem_nil
  | step s before alone ih =>
    have coherent := coherent_reachable before.reachable
    cases s with
    | add e now => exact ih.add coherent (fun o ho => (alone o ho).2) now
    | remove source target type now => exact ih.remove coherent source target type now
    | load s => exact ownNotes_load _ alone.2
    | validate now => exact ih.validate now
    | _ => exact ih

/-- No edge is stored twice if none is stored twice under one source. -/
theorem nodup_edges (c : Coherent g) (h : Separate g) : g.edges.Nodup := by
  rw [List.nodup_iff_sublist]
  intro e twice
  have own := twice.filter (·.edge.source = e.edge.source)
  have both : [e, e].filter (·.edge.source = e.edge.source) = [e, e] := by simp
  rw [edges, c.bySource.filter_edgesOf, both] at own
  exact List.nodup_iff_sublist.mp (List.Nodup.of_map _ (h.distinct _)) e own

theorem nodup_notes [Scalar α] (h : Unshared g) : (g.edges.map (·.notes)).Nodup := by
  have reached := h.reachable
  have once := nodup_edges (coherent_reachable reached)
    (separate_reachable reached fun _ listed => listed)
  exact once.map_on fun e he o ho same => ownNotes_unshared h e he o ho same

/-- There is always a number that no object was handed in with. -/
theorem exists_new (edges : List (EdgeObject Origin α)) :
    ∃ n, ∀ m, n ≤ m → ∀ o ∈ edges, o.object ≠ .given m ∧ o.notes ≠ .given m := by
  have beyond : ∀ x : Origin, ∃ n, ∀ m, n ≤ m → x ≠ .given m := by
    intro x
    cases x with
    | given k =>
      refine ⟨k + 1, fun m above same => ?_⟩
      rw [Origin.given.inj same] at above
      exact absurd above (Nat.not_succ_le_self m)
    | copied _ => exact ⟨0, nofun⟩
    | renamed _ => exact ⟨0, nofun⟩
  induction edges with
  | nil => exact ⟨0, fun _ _ => List.forall_mem_nil _⟩
  | cons e rest ih =>
    obtain ⟨later, others⟩ := ih
    obtain ⟨object, other_object⟩ := beyond e.object
    obtain ⟨notes, other_notes⟩ := beyond e.notes
    refine ⟨max later (max object notes), fun m above => List.forall_mem_cons.mpr ⟨?_, ?_⟩⟩
    · exact ⟨other_object m (by omega), other_notes m (by omega)⟩
    · exact others m (by omega)

theorem exists_alone (g : ObjectGraph α) (s : GraphStep α) :
    ∃ t : ObjectStep α, t.Alone g ∧ t.values = s := by
  cases s with
  | register id now => exact ⟨.register id now, trivial, rfl⟩
  | add r now =>
    obtain ⟨n, new⟩ := exists_new g.edges
    exact ⟨.add ⟨n, n, r⟩ now, new n (Nat.le_refl n), rfl⟩
  | remove source target type now => exact ⟨.remove source target type now, trivial, rfl⟩
  | load s =>
    exact ⟨.load (.ofValues s),
      ⟨ObjectSnapshot.listsOnce_ofValues s, ObjectSnapshot.nodup_notes_ofValues s⟩,
      congrArg GraphStep.load (ObjectSnapshot.values_ofValues s)⟩
  | validate now => exact ⟨.validate now, trivial, rfl⟩
  | clearCaches => exact ⟨.clearCaches, trivial, rfl⟩
  | analyze id now => exact ⟨.analyze id now, trivial, rfl⟩
  | path source target hops => exact ⟨.path source target hops, trivial, rfl⟩

theorem edgeValues_putEdges (ms : Members (List (EdgeObject Origin α))) (name : String)
    (edges : List (EdgeObject Origin α)) :
    edgeValues (putEdges ms name edges) = putEdges (edgeValues ms) name (edges.map (·.edge)) := by
  unfold putEdges edgeValues
  rw [List.isEmpty_map]
  split
  · rw [Members.erase, Members.erase, List.filter_map]
    rfl
  · exact Members.map_put ..

theorem map_place (e : EdgeObject Origin α) (edges : List (EdgeObject Origin α)) :
    (place EdgeObject.key e edges).map (·.edge) =
      place Relationship.key e.edge (edges.map (·.edge)) := by
  induction edges with
  | nil => rfl
  | cons o rest ih =>
    rw [place, List.map_cons, place]
    by_cases same : o.key = e.key
    · rw [if_pos same, if_pos (by exact same), List.map_cons]
    · rw [if_neg same, if_neg (by exact same), List.map_cons, ih]

theorem view_keep_changed (g : ObjectGraph α) (now : Moment) :
    (g.keep (g.view.changed now)).view = g.view.changed now :=
  view_keep rfl rfl

theorem view_add (c : Coherent g) (h : Separate g) (e : EdgeObject Origin α) (now : Moment) :
    (g.add e now).view = g.view.add e.edge now := by
  have outgoing : edgeValues (g.outgoing.put e.edge.source
      (place EdgeObject.key e (g.outgoingOf e.edge.source))) =
      g.view.outgoing.put e.edge.source
        (place Relationship.key e.edge (g.view.outgoingOf e.edge.source)) := by
    rw [outgoingOf_view, ← map_place]
    exact Members.map_put ..
  have incoming : edgeValues (g.incoming.put e.edge.target
      (exchange e (g.replacedBy e) (g.incomingOf e.edge.target))) =
      g.view.incoming.put e.edge.target
        (place Relationship.key e.edge (g.view.incomingOf e.edge.target)) := by
    rw [h.exchange_eq_place c, incomingOf_view, ← map_place]
    exact Members.map_put ..
  refine (view_keep_changed _ now).trans ?_
  rw [RelationshipGraph.add, ← outgoing, ← incoming]
  rfl

/-- The edges that a removal leaves, told by their ends and types. -/
theorem view_removeWhere (c : Coherent g) (source target : String)
    (wanted : RelationshipType → Bool) (now : Moment) :
    (g.removeWhere source target wanted now).2.view =
      (g.view.removeWhere source target wanted now).2 := by
  have outgoing : (without (g.removed source target wanted) (g.outgoingOf source)).map (·.edge) =
      (g.view.outgoingOf source).filter fun r => !(r.target = target && wanted r.type) := by
    rw [c.without_removed fun o => c.mem_of_outgoingOf, outgoingOf_view, List.filter_map]
    refine congrArg _ (List.filter_congr fun o ho => ?_)
    have own : o.key.1 = source := c.bySource.key_eq ho
    simp only [isGone, own, decide_true, Bool.true_and]
    rfl
  have incoming : (without (g.removed source target wanted) (g.incomingOf target)).map (·.edge) =
      (g.view.incomingOf target).filter fun r => !(r.source = source && wanted r.type) := by
    rw [c.without_removed fun o => c.mem_of_incomingOf, incomingOf_view, List.filter_map]
    refine congrArg _ (List.filter_congr fun o ho => ?_)
    have own : o.key.2.1 = target := c.byTarget.key_eq ho
    simp only [isGone, own, decide_true, Bool.true_and]
    rfl
  have some_iff : (g.view.outgoingOf source).any (fun r => r.target = target && wanted r.type) =
      !(g.removed source target wanted).isEmpty := by
    rw [outgoingOf_view, List.any_map, removed, Bool.eq_iff_iff]
    simp [List.filter_eq_nil_iff]
  unfold removeWhere RelationshipGraph.removeWhere
  rw [some_iff, ← outgoing, ← incoming]
  dsimp only
  cases (g.removed source target wanted).isEmpty with
  | true => rfl
  | false =>
    simp only [Bool.not_false, Bool.false_eq_true, if_true, if_false]
    refine (view_keep_changed _ now).trans ?_
    dsimp only [view]
    rw [edgeValues_putEdges, edgeValues_putEdges]
    rfl

theorem view_remove (c : Coherent g) (source target : String) (type : Option String)
    (now : Moment) :
    (g.remove source target type now).2.view = (g.view.remove source target type now).2 := by
  cases type with
  | none => exact view_removeWhere c ..
  | some name =>
    rw [remove, RelationshipGraph.remove]
    cases (Vocabulary.ofName? name : Option RelationshipType) with
    | none => rfl
    | some wanted => exact view_removeWhere c ..

theorem view_validate (c : Coherent g) (own : (g.edges.map (·.notes)).Nodup) (now : Moment) :
    (g.validate now).2.view = (g.view.validate now).2 := by
  have once : ∀ e ∈ g.edges, (g.marked now e).edge = RelationshipGraph.stamped now e.edge := by
    intro e he
    rw [marked, holders_of_nodup own he]
    rfl
  have index : ∀ ms : Members (List (EdgeObject Origin α)), (∀ e ∈ edgesOf ms, e ∈ g.edges) →
      edgeValues (ms.map fun m => (m.1, m.2.map (g.marked now))) =
        (edgeValues ms).map fun m => (m.1, m.2.map (RelationshipGraph.stamped now)) := by
    intro ms stored
    unfold edgeValues
    rw [List.map_map, List.map_map]
    refine List.map_congr_left fun m hm => congrArg (Prod.mk m.1) ?_
    rw [List.map_map, List.map_map]
    exact List.map_congr_left fun e he => once e (stored e (List.mem_flatMap.mpr ⟨m, hm, he⟩))
  have outgoing := index g.outgoing fun _ he => he
  have incoming := index g.incoming c.stored
  rw [RelationshipGraph.validate]
  dsimp only [view] at outgoing incoming ⊢
  rw [← outgoing, ← incoming]
  rfl

theorem view_created {options : GraphOptions α} {v : RelationshipGraph α}
    (made : RelationshipGraph.create options now = .ok v) : (ofRest v [] []).view = v := by
  obtain ⟨outgoing, incoming, -, -⟩ := RelationshipGraph.create_eq_ok made
  obtain ⟨options, out, back, registered, metadata, analyses, paths, revision⟩ := v
  obtain rfl : out = [] := outgoing
  obtain rfl : back = [] := incoming
  rfl

variable [Scalar α]

theorem view_apply (h : Unshared g) {s : ObjectStep α} (alone : s.Alone g) :
    (s.apply g).view = s.values.apply g.view := by
  have coherent := coherent_reachable h.reachable
  have apart := separate_reachable h.reachable fun _ listed => listed
  cases s with
  | register id now => exact view_register g id now
  | add e now => exact view_add coherent apart e.given now
  | remove source target type now => exact view_remove coherent source target type now
  | load s => exact view_load g s
  | validate now => exact view_validate coherent (nodup_notes h) now
  | clearCaches => rfl
  | analyze id now => exact view_analyze g id now
  | path source target hops => exact view_path g source target hops

/-- The graphs that keep edges as they are, are what is seen of the graphs that share nothing. -/
theorem reachable_iff_unshared {v : RelationshipGraph α} :
    RelationshipGraph.Reachable v ↔ ∃ g, Unshared g ∧ g.view = v := by
  constructor
  · intro reached
    induction reached with
    | created made => exact ⟨_, .created (map_eq_ok.mpr ⟨_, made, rfl⟩), view_created made⟩
    | step s _ ih =>
      obtain ⟨g, unshared, rfl⟩ := ih
      obtain ⟨t, alone, rfl⟩ := exists_alone g s
      exact ⟨t.apply g, .step t unshared alone, view_apply unshared alone⟩
  · rintro ⟨g, unshared, rfl⟩
    induction unshared with
    | created made =>
      obtain ⟨v, empty, rfl⟩ := map_eq_ok.mp made
      rw [view_created empty]
      exact .created empty
    | step s before alone ih =>
      rw [view_apply before alone]
      exact .step s.values ih

end ObjectGraph

end EntityRules
