import EntityRules.Proofs.Except
import EntityRules.Proofs.Graph.Objects

/-! Runs of a graph whose edges are objects, one of which may stand in several places. -/

namespace EntityRules

open RelationshipGraph (Keyed edgesOf under under_indexBy under_putEdges putEdges indexBy)

variable {α : Type}

namespace ObjectGraph

open EdgeObject (Consistent)

variable {g : ObjectGraph α} {now : Moment}

section

variable (source target : String) (wanted : RelationshipType → Bool)

/-- What removing takes away, told by keys. -/
def isGone (k : String × String × RelationshipType) : Bool :=
  k.1 = source && (k.2.1 = target && wanted k.2.2)

variable {source target wanted}

theorem Coherent.mem_removed (h : Coherent g) {o : EdgeObject Origin α} :
    o ∈ g.removed source target wanted ↔ o ∈ g.edges ∧ isGone source target wanted o.key = true := by
  constructor
  · intro mem
    obtain ⟨mem, leads⟩ := List.mem_filter.mp mem
    have own : o.key.1 = source := h.bySource.key_eq mem
    refine ⟨h.mem_of_outgoingOf mem, ?_⟩
    rw [isGone, decide_eq_true own]
    exact leads
  · rintro ⟨mem, gone⟩
    rw [isGone, Bool.and_eq_true, decide_eq_true_eq] at gone
    have own := h.mem_edges_iff.mp mem
    rw [show o.edge.source = source from gone.1] at own
    exact List.mem_filter.mpr ⟨own, gone.2⟩

/-- An edge that is stored is one of the objects that are removed if its key says so. -/
theorem Coherent.without_removed (h : Coherent g) {edges : List (EdgeObject Origin α)}
    (stored : ∀ o ∈ edges, o ∈ g.edges) :
    without (g.removed source target wanted) edges =
      edges.filter (!isGone source target wanted ·.key) := by
  refine List.filter_congr fun o ho => ?_
  rw [Bool.eq_iff_iff, List.all_eq_true, Bool.not_eq_true']
  constructor
  · intro apart
    by_contra gone
    have mem := h.mem_removed.mpr ⟨stored o ho, by simpa using gone⟩
    simpa using apart o mem
  · intro kept r hr
    obtain ⟨mem, gone⟩ := h.mem_removed.mp hr
    refine decide_eq_true fun same => ?_
    rw [h.consistent.edges o (stored o ho) r mem same, gone] at kept
    cases kept

theorem without_nil (edges : List (EdgeObject Origin α)) : without [] edges = edges :=
  List.filter_eq_self.mpr fun _ _ => rfl

theorem Coherent.outgoingOf_removeWhere (h : Coherent g) (now : Moment) (id : String) :
    (g.removeWhere source target wanted now).2.outgoingOf id =
      (g.outgoingOf id).filter (!isGone source target wanted ·.key) := by
  rw [← h.without_removed fun o => h.mem_of_outgoingOf, removeWhere]
  split
  · next none =>
    rw [List.isEmpty_iff.mp none, without_nil]
  · refine (under_putEdges ..).trans ?_
    split
    · next same => rw [same]
    · next differ =>
      rw [h.without_removed fun o => h.mem_of_outgoingOf]
      refine (List.filter_eq_self.mpr fun o ho => ?_).symm
      have own : o.key.1 = id := h.bySource.key_eq ho
      simp [isGone, own, Ne.symm differ]

theorem Coherent.incomingOf_removeWhere (h : Coherent g) (now : Moment) (id : String) :
    (g.removeWhere source target wanted now).2.incomingOf id =
      (g.incomingOf id).filter (!isGone source target wanted ·.key) := by
  rw [← h.without_removed fun o => h.mem_of_incomingOf, removeWhere]
  split
  · next none =>
    rw [List.isEmpty_iff.mp none, without_nil]
  · refine (under_putEdges ..).trans ?_
    split
    · next same => rw [same]
    · next differ =>
      rw [h.without_removed fun o => h.mem_of_incomingOf]
      refine (List.filter_eq_self.mpr fun o ho => ?_).symm
      have own : o.key.2.1 = id := h.byTarget.key_eq ho
      simp [isGone, own, Ne.symm differ]

theorem Coherent.bySource_removeWhere (h : Coherent g) (now : Moment) :
    Keyed (·.edge.source) (g.removeWhere source target wanted now).2.outgoing := by
  unfold removeWhere
  dsimp only
  split
  · exact h.bySource
  · exact h.bySource.putEdges fun e he => h.bySource.key_eq (List.mem_filter.1 he).1

theorem Coherent.byTarget_removeWhere (h : Coherent g) (now : Moment) :
    Keyed (·.edge.target) (g.removeWhere source target wanted now).2.incoming := by
  unfold removeWhere
  dsimp only
  split
  · exact h.byTarget
  · exact h.byTarget.putEdges fun e he => h.byTarget.key_eq (List.mem_filter.1 he).1

theorem Coherent.mem_edges_removeWhere (h : Coherent g) {o : EdgeObject Origin α} :
    o ∈ (g.removeWhere source target wanted now).2.edges ↔
      o ∈ g.edges ∧ isGone source target wanted o.key = false := by
  have bySource : Keyed (·.edge.source) (g.removeWhere source target wanted now).2.outgoing :=
    h.bySource_removeWhere now
  have stays : o ∈ edgesOf (g.removeWhere source target wanted now).2.outgoing ↔
      o ∈ (g.removeWhere source target wanted now).2.outgoingOf o.edge.source :=
    bySource.mem_edgesOf_iff
  rw [edges, stays, h.outgoingOf_removeWhere, List.mem_filter, ← h.mem_edges_iff,
    Bool.not_eq_true']

theorem coherent_removeWhere (h : Coherent g) (source target : String)
    (wanted : RelationshipType → Bool) (now : Moment) :
    Coherent (g.removeWhere source target wanted now).2 where
  bySource := h.bySource_removeWhere now
  byTarget := h.byTarget_removeWhere now
  keys s t := by
    have keys : ∀ edges : List (EdgeObject Origin α),
        (edges.filter (!isGone source target wanted ·.key)).map (·.key) =
          (edges.map (·.key)).filter (!isGone source target wanted ·) := by
      intro edges
      rw [List.filter_map]
      rfl
    rw [h.outgoingOf_removeWhere, h.incomingOf_removeWhere, keys, keys, List.filter_comm, h.keys,
      List.filter_comm]
  stored o ho := by
    replace ho := (h.byTarget_removeWhere now).mem_edgesOf_iff.mp ho
    change o ∈ (g.removeWhere source target wanted now).2.incomingOf o.edge.target at ho
    rw [h.incomingOf_removeWhere, List.mem_filter, Bool.not_eq_true'] at ho
    exact h.mem_edges_removeWhere.mpr ⟨h.mem_of_incomingOf ho.1, ho.2⟩
  consistent := h.consistent.mono fun o ho => (h.mem_edges_removeWhere.mp ho).1
  totalNodes := by
    unfold removeWhere
    dsimp only
    split
    · exact h.totalNodes
    · rfl
  totalEdges := by
    unfold removeWhere
    dsimp only
    split
    · exact h.totalEdges
    · rfl

/-- Narrowing a list by keys keeps what is found first with a key that stays. -/
theorem find?_filter_key {edges : List (EdgeObject Origin α)} {o : EdgeObject Origin α}
    {p : String × String × RelationshipType → Bool} (stays : p o.key = true) :
    (edges.filter (p ·.key)).find? (·.key = o.key) = edges.find? (·.key = o.key) := by
  rw [List.find?_filter]
  congr
  funext e
  by_cases same : e.key = o.key
  · simp [same, stays]
  · simp [same]

theorem Separate.removeWhere (c : Coherent g) (h : Separate g) (source target : String)
    (wanted : RelationshipType → Bool) (now : Moment) :
    Separate (g.removeWhere source target wanted now).2 where
  agree s t := by
    rw [c.outgoingOf_removeWhere, c.incomingOf_removeWhere, List.filter_comm, h.agree,
      List.filter_comm]
  distinct s := by
    rw [c.outgoingOf_removeWhere]
    exact (h.distinct s).sublist (List.filter_sublist.map _)
  first s n o ho handed := by
    rw [c.outgoingOf_removeWhere] at ho ⊢
    obtain ⟨mem, stays⟩ := List.mem_filter.mp ho
    rw [find?_filter_key (p := (!isGone source target wanted ·)) stays]
    exact h.first s n o mem handed

end

theorem mem_copies {s : ObjectSnapshot α} {e : EdgeObject Origin α} (mem : e ∈ s.copies) :
    ∃ name o place, o ∈ edgesOf s.relationships ∧
      (s.relationships.flatMap fun m => m.2.map (m.1, ·))[place]? = some (name, o) ∧
      e = ObjectSnapshot.copyAt name o place := by
  obtain ⟨⟨⟨name, o⟩, place⟩, there, rfl⟩ := List.mem_map.mp mem
  have found := List.mem_zipIdx_iff_getElem?.mp there
  refine ⟨name, o, place, ?_, found, rfl⟩
  obtain ⟨m, hm, listed⟩ := List.mem_flatMap.mp (List.mem_of_getElem? found)
  obtain ⟨o', ho', same⟩ := List.mem_map.mp listed
  cases same
  exact List.mem_flatMap.mpr ⟨m, hm, ho'⟩

theorem consistent_copies {s : ObjectSnapshot α} (fits : Consistent (edgesOf s.relationships)) :
    Consistent s.copies where
  edges e he e' he' same := by
    obtain ⟨name, o, place, ho, found, rfl⟩ := mem_copies he
    obtain ⟨name', o', place', ho', found', rfl⟩ := mem_copies he'
    by_cases own : o.edge.source = name <;> by_cases own' : o'.edge.source = name' <;>
      simp only [ObjectSnapshot.copyAt, own, own', if_true, if_false, reduceCtorEq,
        Origin.copied.injEq, Origin.renamed.injEq] at same ⊢
    · have one := fits.edges o ho o' ho' same
      simp [← own, ← own', one]
    · subst same
      rw [found] at found'
      cases found'
      rfl
  notes e he e' he' same := by
    obtain ⟨name, o, place, ho, -, rfl⟩ := mem_copies he
    obtain ⟨name', o', place', ho', -, rfl⟩ := mem_copies he'
    exact fits.notes o ho o' ho' (Origin.copied.inj same)

/-- What does not depend on the places of edges, seen of the copies. -/
theorem map_copies {β : Type} {f : EdgeObject Origin α → β} {k : String → EdgeObject Nat α → β}
    (same : ∀ name e place, f (ObjectSnapshot.copyAt name e place) = k name e)
    (s : ObjectSnapshot α) :
    s.copies.map f = s.relationships.flatMap fun m => m.2.map (k m.1) := by
  have places : ∀ l : List (String × EdgeObject Nat α),
      (l.zipIdx.map fun x => f (ObjectSnapshot.copyAt x.1.1 x.1.2 x.2)) =
        l.map fun e => k e.1 e.2 := by
    intro l
    simp only [same]
    calc (l.zipIdx.map fun x => k x.1.1 x.1.2) =
          (l.zipIdx.map Prod.fst).map fun e => k e.1 e.2 := by
          rw [List.map_map]
          rfl
      _ = _ := by rw [List.zipIdx_map_fst]
  rw [ObjectSnapshot.copies, List.map_map]
  refine (places _).trans ?_
  rw [List.map_flatMap]
  simp only [List.map_map]
  rfl

theorem values_copies (s : ObjectSnapshot α) :
    s.copies.map (·.edge) = RelationshipGraph.edgesIn s.values := by
  rw [map_copies (k := fun name e => { e.edge with source := name }) fun _ _ _ => rfl,
    RelationshipGraph.edgesIn, ObjectSnapshot.values, edgeValues, List.flatMap_map]
  simp only [List.map_map]
  rfl

/-- Loading makes of a snapshot what its values say. -/
theorem view_load (g : ObjectGraph α) (s : ObjectSnapshot α) :
    (g.load s).view = g.view.load s.values := by
  have outgoing : edgeValues (g.load s).outgoing = (g.view.load s.values).outgoing := by
    refine (RelationshipGraph.map_indexBy ..).trans ?_
    rw [values_copies]
    rfl
  have incoming : edgeValues (g.load s).incoming = (g.view.load s.values).incoming := by
    refine (RelationshipGraph.map_indexBy ..).trans ?_
    rw [values_copies]
    rfl
  rw [view, outgoing, incoming]
  rfl

theorem outgoingOf_load (g : ObjectGraph α) (s : ObjectSnapshot α) (id : String) :
    (g.load s).outgoingOf id = s.copies.filter (·.edge.source = id) := under_indexBy ..

theorem incomingOf_load (g : ObjectGraph α) (s : ObjectSnapshot α) (id : String) :
    (g.load s).incomingOf id = s.copies.filter (·.edge.target = id) := under_indexBy ..

theorem agree_load (g : ObjectGraph α) (s : ObjectSnapshot α) (source target : String) :
    ((g.load s).outgoingOf source).filter (·.edge.target = target) =
      ((g.load s).incomingOf target).filter (·.edge.source = source) := by
  rw [outgoingOf_load, incomingOf_load, List.filter_comm]

theorem coherent_load (g : ObjectGraph α) {s : ObjectSnapshot α}
    (fits : Consistent (edgesOf s.relationships)) : Coherent (g.load s) where
  bySource := RelationshipGraph.keyed_indexBy ..
  byTarget := RelationshipGraph.keyed_indexBy ..
  keys source target := by
    rw [List.filter_map, List.filter_map]
    exact congrArg (List.map (·.key)) (agree_load g s source target)
  stored e he :=
    RelationshipGraph.mem_edgesOf_indexBy.mpr (RelationshipGraph.mem_edgesOf_indexBy.mp he)
  consistent := (consistent_copies fits).mono fun e he =>
    RelationshipGraph.mem_edgesOf_indexBy.mp he
  totalNodes := by
    rw [view_load]
    rfl
  totalEdges := by
    rw [view_load]
    rfl

/-- The copies of different objects differ, and what is made for a place stands in no other one. -/
theorem nodup_copies {s : ObjectSnapshot α} (once : s.ListsOnce) :
    (s.copies.map (·.object)).Nodup := by
  have listed : ((s.relationships.flatMap fun m => m.2.map (m.1, ·)).map (·.2.object)).Nodup := by
    have edges : (s.relationships.flatMap fun m => m.2.map (m.1, ·)).map (·.2) =
        edgesOf s.relationships := by
      rw [List.map_flatMap]
      simp only [List.map_map, Function.comp_def, List.map_id']
      rfl
    have objects := once
    rw [ObjectSnapshot.ListsOnce, ← edges, List.map_map] at objects
    exact objects
  have places : (s.relationships.flatMap fun m => m.2.map (m.1, ·)).zipIdx.Nodup := by
    refine List.Nodup.of_map Prod.snd ?_
    rw [List.zipIdx_map_snd]
    exact List.nodup_range'
  rw [ObjectSnapshot.copies, List.map_map]
  refine places.map_on ?_
  rintro ⟨⟨name, o⟩, i⟩ hi ⟨⟨name', o'⟩, j⟩ hj same
  replace hi := List.mem_zipIdx_iff_getElem?.mp hi
  replace hj := List.mem_zipIdx_iff_getElem?.mp hj
  suffices one : i = j by
    subst one
    cases hi.symm.trans hj
    rfl
  by_cases own : o.edge.source = name <;> by_cases own' : o'.edge.source = name' <;>
    simp only [Function.comp_apply, ObjectSnapshot.copyAt, own, own', if_true, if_false,
      reduceCtorEq, Origin.copied.injEq, Origin.renamed.injEq] at same
  · refine (List.getElem?_inj ?_ listed).mp ?_
    · rw [List.length_map]
      exact (List.getElem?_eq_some_iff.mp hi).1
    · rw [List.getElem?_map, List.getElem?_map, hi, hj]
      exact congrArg some same
  · exact same

theorem Separate.load (g : ObjectGraph α) {s : ObjectSnapshot α} (once : s.ListsOnce) :
    Separate (g.load s) where
  agree := agree_load g s
  distinct source := by
    rw [outgoingOf_load]
    exact (nodup_copies once).sublist (List.filter_sublist.map _)
  first source n o ho handed := by
    rw [outgoingOf_load] at ho
    obtain ⟨name, o, place, -, -, rfl⟩ := mem_copies (List.mem_filter.mp ho).1
    rw [ObjectSnapshot.copyAt] at handed
    dsimp only at handed
    split at handed <;> cases handed

/-- Whatever one mark leaves as it is, many leave. -/
theorem repeat_stamped {β : Type} {f : Relationship α → β}
    (kept : ∀ r, f (RelationshipGraph.stamped now r) = f r) (n : Nat) (r : Relationship α) :
    f (n.repeat (RelationshipGraph.stamped now) r) = f r := by
  induction n with
  | zero => rfl
  | succ n ih => rw [Nat.repeat, kept, ih]

/-- Edges with the same notes have the same notes when they are marked alike. -/
theorem metadata_repeat_stamped {r r' : Relationship α} (same : r.metadata = r'.metadata)
    (n : Nat) : (n.repeat (RelationshipGraph.stamped now) r).metadata =
      (n.repeat (RelationshipGraph.stamped now) r').metadata := by
  induction n with
  | zero => exact same
  | succ n ih =>
    rw [Nat.repeat, Nat.repeat, RelationshipGraph.stamped, ih]
    rfl

theorem holders_pos {e : EdgeObject Origin α} (stored : e ∈ g.edges) : 0 < g.holders e.notes :=
  List.countP_pos_iff.mpr ⟨e, stored, decide_eq_true rfl⟩

/-- An edge that shares its notes with no other one is marked once. -/
theorem holders_of_nodup (own : (g.edges.map (·.notes)).Nodup) {e : EdgeObject Origin α}
    (stored : e ∈ g.edges) : g.holders e.notes = 1 := by
  have once := List.count_eq_one_of_mem own (List.mem_map_of_mem stored)
  rw [List.count, List.countP_map] at once
  rw [← once, holders]
  exact List.countP_congr fun o _ => by simp

theorem key_marked (g : ObjectGraph α) (now : Moment) (e : EdgeObject Origin α) :
    (g.marked now e).key = e.key := repeat_stamped (f := Relationship.key) (fun _ => rfl) _ _

theorem source_marked (g : ObjectGraph α) (now : Moment) (e : EdgeObject Origin α) :
    (g.marked now e).edge.source = e.edge.source :=
  congrArg (·.1) (key_marked g now e)

theorem target_marked (g : ObjectGraph α) (now : Moment) (e : EdgeObject Origin α) :
    (g.marked now e).edge.target = e.edge.target :=
  congrArg (·.2.1) (key_marked g now e)

theorem outgoingOf_validate (g : ObjectGraph α) (now : Moment) (id : String) :
    (g.validate now).2.outgoingOf id = (g.outgoingOf id).map (g.marked now) :=
  RelationshipGraph.under_map ..

theorem incomingOf_validate (g : ObjectGraph α) (now : Moment) (id : String) :
    (g.validate now).2.incomingOf id = (g.incomingOf id).map (g.marked now) :=
  RelationshipGraph.under_map ..

theorem edges_validate (g : ObjectGraph α) (now : Moment) :
    (g.validate now).2.edges = g.edges.map (g.marked now) :=
  RelationshipGraph.edgesOf_map ..

theorem nodes_validate (g : ObjectGraph α) (now : Moment) :
    (g.validate now).2.view.nodes = g.view.nodes := by
  change RelationshipGraph.nodesOf (edgeValues (g.outgoing.map _)) g.registered =
    RelationshipGraph.nodesOf (edgeValues g.outgoing) g.registered
  simp [RelationshipGraph.nodesOf, edgeValues, List.flatMap_map, Function.comp_def, target_marked]

theorem Coherent.validate (h : Coherent g) (now : Moment) : Coherent (g.validate now).2 where
  bySource := h.bySource.map (source_marked g now)
  byTarget := h.byTarget.map (target_marked g now)
  keys s t := by
    have same : (fun e => e.key) ∘ g.marked now = fun e => e.key := funext (key_marked g now)
    rw [outgoingOf_validate, incomingOf_validate, List.map_map, List.map_map, same]
    exact h.keys s t
  stored e he := by
    rw [show edgesOf (g.validate now).2.incoming = _ from RelationshipGraph.edgesOf_map ..] at he
    obtain ⟨o, ho, rfl⟩ := List.mem_map.mp he
    rw [edges_validate]
    exact List.mem_map_of_mem (h.stored o ho)
  consistent := by
    rw [edges_validate]
    constructor
    · intro e he o ho same
      obtain ⟨e, he', rfl⟩ := List.mem_map.mp he
      obtain ⟨o, ho', rfl⟩ := List.mem_map.mp ho
      rw [h.consistent.edges e he' o ho' same]
    · intro e he o ho same
      obtain ⟨e, he', rfl⟩ := List.mem_map.mp he
      obtain ⟨o, ho', rfl⟩ := List.mem_map.mp ho
      have notes : e.notes = o.notes := same
      rw [marked, marked, notes]
      exact metadata_repeat_stamped (h.consistent.notes e he' o ho' notes) _
  totalNodes := by
    rw [nodes_validate]
    exact h.totalNodes
  totalEdges := by
    rw [edges_view, edges_validate, List.length_map, List.length_map]
    have total := h.totalEdges
    rwa [edges_view, List.length_map] at total

theorem Separate.validate (h : Separate g) (now : Moment) : Separate (g.validate now).2 where
  agree s t := by
    rw [outgoingOf_validate, incomingOf_validate, List.filter_map, List.filter_map]
    simp only [Function.comp_def, source_marked, target_marked]
    rw [h.agree]
  distinct s := by
    rw [outgoingOf_validate, List.map_map]
    exact h.distinct s
  first s n o ho handed := by
    rw [outgoingOf_validate] at ho ⊢
    obtain ⟨e, he, rfl⟩ := List.mem_map.mp ho
    rw [List.find?_map]
    simp only [Function.comp_def, key_marked]
    rw [h.first s n e he handed]
    rfl

theorem coherent_created {options : GraphOptions α} (made : create options now = .ok g) :
    Coherent g ∧ Separate g := by
  obtain ⟨v, empty, rfl⟩ := map_eq_ok.mp made
  obtain ⟨-, -, registered, metadata⟩ := RelationshipGraph.create_eq_ok empty
  have none : ∀ e : EdgeObject Origin α, e ∉ [] := fun _ => List.not_mem_nil
  refine ⟨⟨.nil, .nil, fun _ _ => rfl, fun e he => absurd he (none e),
    .of_nodup List.nodup_nil List.nodup_nil, ?_, ?_⟩,
    ⟨fun _ _ => rfl, fun _ => List.nodup_nil, fun _ _ e he => absurd he (none e)⟩⟩
  · change v.metadata.totalNodes = (RelationshipGraph.nodesOf [] v.registered).length
    rw [registered, metadata]
    rfl
  · change v.metadata.totalEdges = 0
    rw [metadata]
    rfl

/-- A look-up leaves the indexes and the counts as they are. -/
theorem Coherent.keep (h : Coherent g) {v : RelationshipGraph α}
    (same : RelationshipGraph.SameContents g.view v) : Coherent (g.keep v) where
  bySource := h.bySource
  byTarget := h.byTarget
  keys := h.keys
  stored := h.stored
  consistent := h.consistent
  totalNodes := by
    change v.metadata.totalNodes =
      (RelationshipGraph.nodesOf (edgeValues g.outgoing) v.registered).length
    rw [same.metadata, same.registered]
    exact h.totalNodes
  totalEdges := by
    change v.metadata.totalEdges = g.view.edges.length
    rw [same.metadata]
    exact h.totalEdges

theorem Coherent.register (h : Coherent g) (id : String) (now : Moment) :
    Coherent (g.register id now) := by
  unfold ObjectGraph.register RelationshipGraph.register
  split
  · exact h
  · exact ⟨h.bySource, h.byTarget, h.keys, h.stored, h.consistent, rfl, rfl⟩

theorem Coherent.remove (h : Coherent g) (source target : String) (type : Option String)
    (now : Moment) : Coherent (g.remove source target type now).2 := by
  unfold ObjectGraph.remove
  split
  · exact coherent_removeWhere h ..
  · split
    · exact coherent_removeWhere h ..
    · exact h

theorem Separate.remove (c : Coherent g) (h : Separate g) (source target : String)
    (type : Option String) (now : Moment) : Separate (g.remove source target type now).2 := by
  unfold ObjectGraph.remove
  split
  · exact h.removeWhere c ..
  · split
    · exact h.removeWhere c ..
    · exact h

variable [Scalar α]

theorem Coherent.step (h : Coherent g) {s : ObjectStep α} (fits : s.Fits g) :
    Coherent (s.apply g) := by
  cases s with
  | register id now => exact h.register id now
  | add e now => exact coherent_add h fits now
  | remove source target type now => exact h.remove source target type now
  | load s => exact coherent_load g fits
  | validate now => exact h.validate now
  | clearCaches =>
    exact ⟨h.bySource, h.byTarget, h.keys, h.stored, h.consistent, h.totalNodes, h.totalEdges⟩
  | analyze id now => exact h.keep (RelationshipGraph.sameContents_analyze ..)
  | path source target hops => exact h.keep (RelationshipGraph.sameContents_path ..)

theorem Separate.step (c : Coherent g) (h : Separate g) {s : ObjectStep α} (fits : s.Fits g)
    (once : ∀ t, s = .load t → t.ListsOnce) : Separate (s.apply g) := by
  cases s with
  | register id now => exact ⟨h.agree, h.distinct, h.first⟩
  | add e now => exact h.add c fits rfl now
  | remove source target type now => exact h.remove c source target type now
  | load s => exact .load g (once s rfl)
  | validate now => exact h.validate now
  | clearCaches => exact ⟨h.agree, h.distinct, h.first⟩
  | analyze id now => exact ⟨h.agree, h.distinct, h.first⟩
  | path source target hops => exact ⟨h.agree, h.distinct, h.first⟩

variable {kind : ObjectSnapshot α → Prop}

theorem coherent_reachable (h : Reachable kind g) : Coherent g := by
  induction h with
  | created made => exact (coherent_created made).1
  | step s _ fits _ ih => exact ih.step fits

theorem separate_reachable (h : Reachable kind g) (once : ∀ s, kind s → s.ListsOnce) :
    Separate g := by
  induction h with
  | created made => exact (coherent_created made).2
  | step s before fits own ih =>
    exact ih.step (coherent_reachable before) fits fun t same => once t (own t same)

/-- Along every run the nodes and the counts are those of the edges, the indexes have the same keys,
and under the targets stand objects that stand under their sources as they are. The indexes hold the
same edges if no snapshot lists an edge twice. -/
theorem reachable_indexed (h : Reachable kind g) :
    g.view.IndexedByKey ∧ (∀ e ∈ edgesOf g.incoming, e ∈ g.edges) ∧
      ((∀ s, kind s → s.ListsOnce) → g.view.WellIndexed) := by
  have coherent := coherent_reachable h
  refine ⟨coherent.paired.indexedByKey, coherent.stored, fun once => ?_⟩
  exact (coherent.coherent_view (separate_reachable h once)).wellIndexed

namespace Sample

open RelationshipGraph.Sample (noon edge options)

/-- An edge that is an object of its own. -/
def single (n : Nat) (r : Relationship Float) : EdgeObject Nat Float := ⟨n, n, r⟩

/-- Different edges with one key, listed under a name that is not their source. -/
def apart : ObjectSnapshot Float :=
  { relationships := [("a", [single 0 (edge "first" "x" "b"), single 1 (edge "second" "x" "b")]),
      ("b", [])]
    metadata := .fresh noon, nodes := ["c", "c"] }

def old : EdgeObject Nat Float := single 0 (edge "old" "a" "b")

/-- One edge in two places. -/
def twice : ObjectSnapshot Float :=
  { relationships := [("a", [old, old])]
    metadata := .fresh noon, nodes := [] }

def steps (s : ObjectSnapshot Float) : List (ObjectStep Float) :=
  [.load s, .validate noon, .add (single 2 (edge "new" "a" "b")) noon]

end Sample

/-- Loading a snapshot and storing a new edge behind it is a run. -/
theorem Sample.reachable_steps {kind : ObjectSnapshot Float → Prop} {s : ObjectSnapshot Float}
    {e : ObjectGraph Float} (made : create RelationshipGraph.Sample.options
      RelationshipGraph.Sample.noon = .ok e) (own : kind s)
    (fits : Consistent (edgesOf s.relationships))
    (new : ∀ o ∈ (e.load s).edges, o.object ≠ .given 2 ∧ o.notes ≠ .given 2) :
    Reachable kind ((Sample.steps s).foldl ObjectStep.apply e) := by
  have loaded : Reachable kind (e.load s) :=
    .step (.load s) (.created made) fits fun t same => ObjectStep.load.inj same ▸ own
  have validated : Reachable kind ((e.load s).validate RelationshipGraph.Sample.noon).2 :=
    .step (.validate RelationshipGraph.Sample.noon) loaded trivial nofun
  refine .step (.add (single 2 (RelationshipGraph.Sample.edge "new" "a" "b"))
    RelationshipGraph.Sample.noon) validated ?_ nofun
  refine (coherent_reachable validated).consistent.cons_new ?_
  rw [edges_validate]
  exact List.forall_mem_map.mpr new

theorem Sample.consistent_twice : Consistent (edgesOf Sample.twice.relationships) := by
  have one : ∀ o ∈ edgesOf Sample.twice.relationships, o = Sample.old := by
    intro o ho
    rcases List.mem_cons.mp ho with same | ho
    · exact same
    · exact List.mem_singleton.mp ho
  constructor <;> intro a ha b hb _ <;> rw [one a ha, one b hb]

/-- Of two edges with one key the first one is replaced on both sides. -/
theorem reachable_indexed_apart : ∃ g : ObjectGraph Float, Reachable ObjectSnapshot.ListsOnce g ∧
    ((g.incomingOf "b").map fun e => (e.edge.id, e.edge.metadata.validationCount)) =
      [("new", 0), ("second", 1)] ∧ g.view.WellIndexed := by
  obtain ⟨e, made⟩ : ∃ e, create RelationshipGraph.Sample.options
    RelationshipGraph.Sample.noon = .ok e := ⟨_, rfl⟩
  have once : Sample.apart.ListsOnce := by decide
  have fits : Consistent (edgesOf Sample.apart.relationships) := .of_nodup once (by decide)
  have reached : Reachable ObjectSnapshot.ListsOnce _ :=
    Sample.reachable_steps made once fits (by cases made; decide)
  refine ⟨_, reached, ?_, (reachable_indexed reached).2.2 fun _ listed => listed⟩
  cases made
  decide

/-- An edge that a snapshot lists twice is replaced in one place under its source and in both places
under its target, so that the indexes do not hold the same edges. -/
theorem not_wellIndexed_twice : ∃ g : ObjectGraph Float, Reachable (fun _ => True) g ∧
    (g.outgoingOf "a").map (·.edge.id) = ["new", "old"] ∧
    (g.incomingOf "b").map (·.edge.id) = ["new", "new"] ∧ ¬ g.view.WellIndexed := by
  obtain ⟨e, made⟩ : ∃ e, create RelationshipGraph.Sample.options
    RelationshipGraph.Sample.noon = .ok e := ⟨_, rfl⟩
  have reached : Reachable (fun _ => True) _ :=
    Sample.reachable_steps made trivial Sample.consistent_twice (by cases made; decide)
  have seen : (((Sample.steps Sample.twice).foldl ObjectStep.apply e).outgoingOf "a").map (·.edge.id) =
      ["new", "old"] ∧
    (((Sample.steps Sample.twice).foldl ObjectStep.apply e).incomingOf "b").map (·.edge.id) =
      ["new", "new"] := by
    cases made
    decide
  refine ⟨_, reached, seen.1, seen.2, fun indexed => ?_⟩
  have perm := (indexed.incoming_perm "b").map (·.id)
  rw [incomingOf_view, List.map_map] at perm
  have ids : (((Sample.steps Sample.twice).foldl ObjectStep.apply e).view.edges.filter
      (·.target = "b")).map (·.id) = ["new", "old"] := by
    cases made
    decide
  rw [ids] at perm
  have mem : "old" ∈ ["new", "new"] := seen.2 ▸ perm.mem_iff.mpr (by decide)
  exact absurd mem (by decide)

end ObjectGraph

end EntityRules
