import EntityRules.Proofs.Graph.Run
import Mathlib.Data.Finset.Card
import Mathlib.Data.List.Dedup

/-! The two indexes of a graph, its registered nodes and its counts stay in step along every run. -/

namespace EntityRules.RelationshipGraph

open Members

variable {α : Type} {g : RelationshipGraph α}

/-- What every step keeps. -/
structure Coherent (g : RelationshipGraph α) : Prop where
  bySource : Keyed (·.source) g.outgoing
  byTarget : Keyed (·.target) g.incoming
  agree : ∀ s t, (g.outgoingOf s).filter (·.target = t) = (g.incomingOf t).filter (·.source = s)
  totalNodes : g.metadata.totalNodes = g.nodes.length
  totalEdges : g.metadata.totalEdges = g.edges.length

@[simp] theorem changed_outgoing (g : RelationshipGraph α) (now : Moment) :
    (g.changed now).outgoing = g.outgoing := rfl

@[simp] theorem changed_incoming (g : RelationshipGraph α) (now : Moment) :
    (g.changed now).incoming = g.incoming := rfl

@[simp] theorem changed_registered (g : RelationshipGraph α) (now : Moment) :
    (g.changed now).registered = g.registered := rfl

/-- A change ends with counts that are right, whatever they were before. -/
theorem coherent_changed (hs : Keyed (·.source) g.outgoing) (ht : Keyed (·.target) g.incoming)
    (ha : ∀ s t, (under g.outgoing s).filter (·.target = t) =
      (under g.incoming t).filter (·.source = s)) (now : Moment) : Coherent (g.changed now) :=
  ⟨hs, ht, ha, rfl, rfl⟩

theorem coherent_created {options : GraphOptions α} {now : Moment}
    (h : create options now = .ok g) : Coherent g := by
  obtain ⟨ho, hi, hr, hm⟩ := create_eq_ok h
  constructor
  · exact ho ▸ .nil
  · exact hi ▸ .nil
  · simp [outgoingOf, incomingOf, ho, hi]
  · simp [hm, GraphMetadata.fresh, nodes, nodesOf, ho, hr]
  · simp [hm, GraphMetadata.fresh, edges, edgesOf, ho]

theorem coherent_sameContents {g' : RelationshipGraph α} (h : Coherent g)
    (hs : SameContents g g') : Coherent g' := by
  obtain ⟨-, ho, hi, hr, hm, -⟩ := hs
  obtain ⟨h₁, h₂, h₃, h₄, h₅⟩ := h
  constructor
  · exact ho ▸ h₁
  · exact hi ▸ h₂
  · simpa only [outgoingOf, incomingOf, ho, hi] using h₃
  · simpa only [nodes, ho, hr, hm] using h₄
  · simpa only [edges, ho, hm] using h₅

theorem coherent_register (h : Coherent g) (id : String) (now : Moment) :
    Coherent (g.register id now) := by
  unfold register
  split
  · exact h
  · exact coherent_changed (g := { g with registered := g.registered ++ [id] })
      h.bySource h.byTarget h.agree now

theorem coherent_add (h : Coherent g) (r : Relationship α) (now : Moment) :
    Coherent (g.add r now) := by
  apply coherent_changed
  · refine h.bySource.put (place_ne_nil Relationship.key r _) ?_
    intro e he
    rcases mem_place he with rfl | he
    · rfl
    · exact h.bySource.key_eq he
  · refine h.byTarget.put (place_ne_nil Relationship.key r _) ?_
    intro e he
    rcases mem_place he with rfl | he
    · rfl
    · exact h.byTarget.key_eq he
  · intro s t
    have hkey : ∀ e : Relationship α, e.key = r.key →
        decide (e.target = t) = decide (r.target = t) ∧
          decide (e.source = s) = decide (r.source = s) := by
      intro e he
      obtain ⟨hs, ht, -⟩ : e.source = r.source ∧ e.target = r.target ∧ e.type = r.type := by
        simpa [Relationship.key] using he
      exact ⟨by rw [ht], by rw [hs]⟩
    have hout := filter_place (g.outgoingOf r.source) fun e he => (hkey e he).1
    have hin := filter_place (g.incomingOf r.target) fun e he => (hkey e he).2
    have hagree := h.agree s t
    rw [outgoingOf_eq, incomingOf_eq] at hagree
    rw [under_put, under_put]
    by_cases hs : r.source = s <;> by_cases ht : r.target = t <;>
      simp_all [outgoingOf_eq, incomingOf_eq]

theorem coherent_removeWhere (h : Coherent g) (source target : String)
    (wanted : RelationshipType → Bool) (now : Moment) :
    Coherent (g.removeWhere source target wanted now).2 := by
  unfold removeWhere
  split
  · apply coherent_changed
    · exact h.bySource.putEdges fun e he => h.bySource.key_eq (List.mem_filter.1 he).1
    · exact h.byTarget.putEdges fun e he => h.byTarget.key_eq (List.mem_filter.1 he).1
    · intro s t
      have hagree := h.agree s t
      have hout := filter_without (·.target) (wanted ·.type) target t (g.outgoingOf source)
      have hin := filter_without (·.source) (wanted ·.type) source s (g.incomingOf target)
      dsimp only at hout hin ⊢
      rw [under_putEdges, under_putEdges]
      by_cases hs : source = s <;> by_cases ht : target = t <;>
        simp_all [← outgoingOf_eq, ← incomingOf_eq]
  · exact h

theorem coherent_remove (h : Coherent g) (source target : String) (type : Option String)
    (now : Moment) : Coherent (g.remove source target type now).2 := by
  unfold remove
  split
  · exact coherent_removeWhere h ..
  · split
    · exact coherent_removeWhere h ..
    · exact h

theorem coherent_load (g : RelationshipGraph α) (s : GraphSnapshot α) : Coherent (g.load s) := by
  refine ⟨keyed_indexBy .., keyed_indexBy .., ?_, rfl, rfl⟩
  intro s' t
  change (under (indexBy _ _) _).filter _ = (under (indexBy _ _) _).filter _
  rw [under_indexBy, under_indexBy, List.filter_filter, List.filter_filter]
  refine List.filter_congr fun r _ => ?_
  rw [Bool.and_comm]

theorem nodesOf_map (ms : Members (List (Relationship α))) (registered : List String)
    {f : Relationship α → Relationship α} (hf : ∀ r, (f r).target = r.target) :
    nodesOf (ms.map fun m => (m.1, m.2.map f)) registered = nodesOf ms registered := by
  simp [nodesOf, List.flatMap_map, Function.comp_def, hf]

theorem coherent_validate (h : Coherent g) (now : Moment) : Coherent (g.validate now).2 := by
  constructor
  · exact h.bySource.map fun _ => rfl
  · exact h.byTarget.map fun _ => rfl
  · intro s t
    change (under (g.outgoing.map _) _).filter _ = (under (g.incoming.map _) _).filter _
    rw [under_map, under_map, List.filter_map, List.filter_map]
    exact congrArg _ (h.agree s t)
  · change g.metadata.totalNodes = (nodesOf (g.outgoing.map _) g.registered).length
    rw [nodesOf_map (f := stamped now) _ _ fun _ => rfl]
    exact h.totalNodes
  · change g.metadata.totalEdges = (edgesOf (g.outgoing.map _)).length
    rw [edgesOf_map, List.length_map]
    exact h.totalEdges

theorem coherent_step [Scalar α] (h : Coherent g) (s : GraphStep α) : Coherent (s.apply g) := by
  cases s with
  | register id now => exact coherent_register h id now
  | add r now => exact coherent_add h r now
  | remove source target type now => exact coherent_remove h source target type now
  | load s => exact coherent_load g s
  | validate now => exact coherent_validate h now
  | clearCaches => exact ⟨h.bySource, h.byTarget, h.agree, h.totalNodes, h.totalEdges⟩
  | analyze id now => exact coherent_sameContents h (sameContents_analyze ..)
  | path source target hops => exact coherent_sameContents h (sameContents_path ..)

theorem coherent_reachable [Scalar α] (h : Reachable g) : Coherent g := by
  induction h with
  | created h => exact coherent_created h
  | step s _ ih => exact coherent_step ih s

/-- The edges under an entity on the target's side are those that a scan of all edges finds. -/
theorem incomingOf_perm (h : Coherent g) (t : String) :
    (g.incomingOf t).Perm (g.edges.filter (·.target = t)) :=
  h.bySource.perm_of_agree h.byTarget h.agree t

/-- The entities that edges start or end at, and those registered. -/
def mentioned (g : RelationshipGraph α) : Finset String :=
  (g.edges.map (·.source) ++ g.edges.map (·.target) ++ g.registered).toFinset

theorem mem_mentioned {id : String} : id ∈ g.mentioned ↔
    (∃ r ∈ g.edges, r.source = id) ∨ (∃ r ∈ g.edges, r.target = id) ∨ id ∈ g.registered := by
  simp [mentioned]

/-- The nodes before the registered ones are the sources and targets of the edges. -/
theorem mem_flatMap_ends (h : Keyed (·.source) g.outgoing) {id : String} :
    (id ∈ g.outgoing.flatMap fun m => m.1 :: m.2.map (·.target)) ↔
      (∃ r ∈ g.edges, r.source = id) ∨ ∃ r ∈ g.edges, r.target = id := by
  constructor
  · intro hid
    obtain ⟨m, hm, hid⟩ := List.mem_flatMap.1 hid
    rcases List.mem_cons.1 hid with rfl | hid
    · exact .inl (h.has_iff.1 (has_iff_mem_names.2 (List.mem_map_of_mem hm)))
    · obtain ⟨r, hr, rfl⟩ := List.mem_map.1 hid
      exact .inr ⟨r, List.mem_flatMap.2 ⟨m, hm, hr⟩, rfl⟩
  · rintro (⟨r, hr, rfl⟩ | ⟨r, hr, rfl⟩) <;> obtain ⟨m, hm, hr⟩ := List.mem_flatMap.1 hr
    · refine List.mem_flatMap.2 ⟨m, hm, ?_⟩
      rw [h.placed m hm r hr]
      exact List.mem_cons_self ..
    · exact List.mem_flatMap.2 ⟨m, hm, List.mem_cons_of_mem _ (List.mem_map_of_mem hr)⟩

theorem toFinset_nodes (h : Keyed (·.source) g.outgoing) : g.nodes.toFinset = g.mentioned := by
  ext id
  rw [List.mem_toFinset, nodes, nodesOf, List.mem_eraseDups, List.mem_append, mem_mentioned,
    mem_flatMap_ends h, or_assoc]

/-- What holds along every run even where one edge stands in several places: for every pair of
entities the keys of the edges between them stand in the same order on both sides. -/
structure Paired (g : RelationshipGraph α) : Prop where
  bySource : Keyed (·.source) g.outgoing
  byTarget : Keyed (·.target) g.incoming
  agree : ∀ s t, ((g.outgoingOf s).map (·.key)).filter (·.2.1 = t) =
    ((g.incomingOf t).map (·.key)).filter (·.1 = s)
  totalNodes : g.metadata.totalNodes = g.nodes.length
  totalEdges : g.metadata.totalEdges = g.edges.length

theorem Coherent.paired (h : Coherent g) : Paired g := by
  refine ⟨h.bySource, h.byTarget, ?_, h.totalNodes, h.totalEdges⟩
  intro s t
  rw [List.filter_map, List.filter_map]
  exact congrArg _ (h.agree s t)

namespace Paired

/-- The keys under an entity on the target's side are those that a scan of all edges finds. -/
theorem keys_perm (h : Paired g) (t : String) :
    ((g.incomingOf t).map (·.key)).Perm ((g.edges.filter (·.target = t)).map (·.key)) := by
  have outgoing : Keyed (·.1) (g.outgoing.map fun m => (m.1, m.2.map (·.key))) :=
    h.bySource.map fun _ => rfl
  have incoming : Keyed (·.2.1) (g.incoming.map fun m => (m.1, m.2.map (·.key))) :=
    h.byTarget.map fun _ => rfl
  have perm := outgoing.perm_of_agree incoming
    (fun s t => by rw [under_map, under_map]; exact h.agree s t) t
  rw [under_map, edgesOf_map, List.filter_map] at perm
  exact perm

theorem exists_target_iff (h : Paired g) {t : String} :
    (∃ r ∈ edgesOf g.incoming, r.target = t) ↔ ∃ r ∈ g.edges, r.target = t := by
  have filled := (h.keys_perm t).length_eq
  rw [List.length_map, List.length_map, incomingOf_eq, ← h.byTarget.filter_edgesOf] at filled
  have some_iff : ∀ rs : List (Relationship α),
      0 < (rs.filter (·.target = t)).length ↔ ∃ r ∈ rs, r.target = t := by
    intro rs
    simp [List.length_pos_iff_exists_mem]
  rw [← some_iff, ← some_iff, filled]

theorem has_iff_mem_mentioned (h : Paired g) {id : String} :
    g.has id = true ↔ id ∈ g.mentioned := by
  rw [has, Bool.or_eq_true, Bool.or_eq_true, h.bySource.has_iff, h.byTarget.has_iff,
    mem_mentioned, or_assoc, h.exists_target_iff, List.contains_iff_mem]
  rfl

end Paired

theorem has_iff_mem_mentioned (h : Coherent g) {id : String} :
    g.has id = true ↔ id ∈ g.mentioned :=
  h.paired.has_iff_mem_mentioned

/-- What the indexes and the counts of a graph say, told by its edges alone and, of the edges to an
entity, by their keys. -/
structure IndexedByKey (g : RelationshipGraph α) : Prop where
  sources_distinct : (names g.outgoing).Nodup
  outgoing_filled : ∀ m ∈ g.outgoing, m.2 ≠ []
  outgoing_source : ∀ m ∈ g.outgoing, ∀ r ∈ m.2, r.source = m.1
  targets_distinct : (names g.incoming).Nodup
  incoming_filled : ∀ m ∈ g.incoming, m.2 ≠ []
  incoming_has : ∀ t, g.incoming.has t = true ↔ ∃ r ∈ g.edges, r.target = t
  incoming_keys : ∀ t,
    ((g.incomingOf t).map (·.key)).Perm ((g.edges.filter (·.target = t)).map (·.key))
  totalEdges : g.metadata.totalEdges = g.edges.length
  totalNodes : g.metadata.totalNodes = g.mentioned.card
  has_iff : ∀ id, g.has id = true ↔ id ∈ g.mentioned
  own : ∀ id, g.relationshipsOf id false = g.edges.filter (·.source = id)

/-- What the indexes and the counts of a graph say, told by its edges alone. -/
structure WellIndexed (g : RelationshipGraph α) : Prop extends IndexedByKey g where
  incoming_perm : ∀ t, (g.incomingOf t).Perm (g.edges.filter (·.target = t))
  /-- Behind the edges of an entity stand, in some order, those to it from other ones as it sees
  them. -/
  both : ∀ id, ∃ seen, g.relationshipsOf id true = g.edges.filter (·.source = id) ++ seen ∧
    seen.Perm ((g.edges.filter fun r => r.target = id && !r.isSelfReference).map (·.inverted))

theorem Paired.indexedByKey (h : Paired g) : IndexedByKey g where
  sources_distinct := h.bySource.distinct
  outgoing_filled := h.bySource.filled
  outgoing_source := h.bySource.placed
  targets_distinct := h.byTarget.distinct
  incoming_filled := h.byTarget.filled
  incoming_has := fun t => h.byTarget.has_iff.trans h.exists_target_iff
  incoming_keys := h.keys_perm
  totalEdges := h.totalEdges
  totalNodes := by
    rw [h.totalNodes, ← toFinset_nodes h.bySource]
    exact congrArg _ (List.toFinset_card_of_nodup (nodup_eraseDups _)).symm
  has_iff := fun _ => h.has_iff_mem_mentioned
  own := by
    intro id
    rw [relationshipsOf, edges, h.bySource.filter_edgesOf]
    exact List.append_nil _

theorem Coherent.wellIndexed (h : Coherent g) : WellIndexed g where
  toIndexedByKey := h.paired.indexedByKey
  incoming_perm := incomingOf_perm h
  both := by
    intro id
    refine ⟨((g.incomingOf id).filter (!·.isSelfReference)).map (·.inverted), ?_, ?_⟩
    · rw [relationshipsOf, edges, h.bySource.filter_edgesOf]
      rfl
    · refine List.Perm.map _ (((incomingOf_perm h id).filter _).trans ?_)
      rw [List.filter_filter]
      refine .of_eq (List.filter_congr fun r _ => ?_)
      rw [Bool.and_comm]

namespace Sample

def noon : Moment := ⟨⟨2026, 3, 1, 12, 0, 0, 0, some 0⟩, by decide⟩

def edge (id source target : String) : Relationship Float :=
  { id, source, target, type := .synergy, strength := 1, bidirectional := false
    conditions := none, metadata := .fresh noon none }

def options : GraphOptions Float :=
  { strengthDecay := .whole 1, indirectDepth := .whole 3, pathHops := .whole 6
    hubFactor := .whole 2, cacheCapacity := .whole 8 }

end Sample

end EntityRules.RelationshipGraph
