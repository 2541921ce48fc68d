import EntityRules.Proofs.Graph.Remembered

/-! Snapshots of a graph, handed out and loaded. -/

namespace EntityRules

variable {α : Type}

/-- A snapshot as a graph stores it: no source stands without edges, every edge starts at the source
that it is listed under, no node is named twice, and nodes and edges are counted anew. -/
def GraphSnapshot.settled (s : GraphSnapshot α) : GraphSnapshot α :=
  let filled := s.relationships.filter fun m => !m.2.isEmpty
  let relationships := filled.map fun m => (m.1, m.2.map fun r => { r with source := m.1 })
  let nodes := s.nodes.eraseDups
  { relationships, nodes
    metadata := { s.metadata with
      totalNodes := (RelationshipGraph.nodesOf relationships nodes).length
      totalEdges := (RelationshipGraph.edgesOf relationships).length } }

namespace RelationshipGraph

open Members

variable {key : Relationship α → String} {ms : Members (List (Relationship α))} {name : String}

theorem under_append_of_new (h : name ∉ names ms) (edges : List (Relationship α)) :
    under (ms ++ [(name, edges)]) name = edges := by
  rw [← put_of_new h, under_put, if_pos rfl]

/-- Edges with the name that stands last join those under it. -/
theorem foldl_group (h : name ∉ names ms) {edges : List (Relationship α)}
    (own : ∀ r ∈ edges, key r = name) (before : List (Relationship α)) :
    edges.foldl (fun ms r => ms.put (key r) (under ms (key r) ++ [r])) (ms ++ [(name, before)]) =
      ms ++ [(name, before ++ edges)] := by
  induction edges generalizing before with
  | nil => rw [List.foldl_nil, List.append_nil]
  | cons r rest ih =>
    obtain ⟨first, others⟩ := List.forall_mem_cons.mp own
    rw [List.foldl_cons, first, under_append_of_new h, put_append_of_new h, ih others,
      List.append_assoc, List.singleton_append]

/-- Edges of a new name come behind all other ones, if there are any. -/
theorem foldl_new (h : name ∉ names ms) {edges : List (Relationship α)}
    (own : ∀ r ∈ edges, key r = name) (filled : edges ≠ []) :
    edges.foldl (fun ms r => ms.put (key r) (under ms (key r) ++ [r])) ms =
      ms ++ [(name, edges)] := by
  cases edges with
  | nil => exact absurd rfl filled
  | cons r rest =>
    obtain ⟨first, others⟩ := List.forall_mem_cons.mp own
    have alone : under ms name = [] := by rw [under, get?_eq_none_iff.mpr h]; rfl
    rw [List.foldl_cons, first, alone, put_of_new h, foldl_group h others]
    rfl

theorem foldl_groups {groups : Members (List (Relationship α))} (distinct : (names groups).Nodup)
    (placed : ∀ m ∈ groups, ∀ r ∈ m.2, key r = m.1) (new : ∀ m ∈ groups, m.1 ∉ names ms) :
    (edgesOf groups).foldl (fun ms r => ms.put (key r) (under ms (key r) ++ [r])) ms =
      ms ++ groups.filter fun m => !m.2.isEmpty := by
  induction groups generalizing ms with
  | nil => rw [List.filter_nil, List.append_nil]; rfl
  | cons m rest ih =>
    obtain ⟨apart, distinct⟩ := List.nodup_cons.mp distinct
    obtain ⟨own, placed⟩ := List.forall_mem_cons.mp placed
    obtain ⟨fresh, new⟩ := List.forall_mem_cons.mp new
    rw [edgesOf, List.flatMap_cons, List.foldl_append, ← edgesOf]
    by_cases empty : m.2 = []
    · rw [List.filter_cons_of_neg (by simp [empty]), empty]
      exact ih distinct placed new
    · rw [List.filter_cons_of_pos (by simp [empty]), foldl_new fresh own empty, ih distinct placed,
        List.append_assoc]
      · rfl
      · intro other ho
        replace apart : m.1 ∉ names rest := apart
        have differs : other.1 ≠ m.1 := fun same => apart (same ▸ mem_names_of_mem ho)
        rw [names, List.map_append, List.mem_append, not_or]
        exact ⟨new other ho, by simpa using differs⟩

/-- Edges that stand in groups are put into the same groups again. -/
theorem indexBy_edgesOf {groups : Members (List (Relationship α))}
    (distinct : (names groups).Nodup) (placed : ∀ m ∈ groups, ∀ r ∈ m.2, key r = m.1) :
    indexBy key (edgesOf groups) = groups.filter fun m => !m.2.isEmpty :=
  foldl_groups distinct placed fun _ _ => List.not_mem_nil

variable (g : RelationshipGraph α) {s : GraphSnapshot α}

theorem edgesIn_eq (s : GraphSnapshot α) :
    edgesIn s =
      edgesOf (s.relationships.map fun m => (m.1, m.2.map fun r => { r with source := m.1 })) := by
  rw [edgesIn, edgesOf, List.flatMap_map]

theorem outgoing_load (distinct : (names s.relationships).Nodup) :
    (g.load s).outgoing = s.settled.relationships := by
  have placed : ∀ m ∈ s.relationships.map fun m =>
      (m.1, m.2.map fun r => { r with source := m.1 }), ∀ r ∈ m.2, r.source = m.1 := by
    intro m hm r hr
    obtain ⟨m', -, rfl⟩ := List.mem_map.mp hm
    obtain ⟨r', -, rfl⟩ := List.mem_map.mp hr
    rfl
  have listed : (names (s.relationships.map fun m =>
      (m.1, m.2.map fun r => { r with source := m.1 }))).Nodup := by
    simpa only [names, List.map_map, Function.comp_def] using distinct
  change indexBy (·.source) (edgesIn s) = _
  rw [edgesIn_eq, indexBy_edgesOf listed placed, List.filter_map]
  simp only [Function.comp_def, List.isEmpty_map]
  rfl

theorem snapshot_load (distinct : (names s.relationships).Nodup) :
    (g.load s).snapshot = s.settled := by
  have outgoing := outgoing_load g distinct
  have nodes : (g.load s).nodes = nodesOf s.settled.relationships s.settled.nodes := by
    rw [RelationshipGraph.nodes, outgoing]
    rfl
  have edges : (g.load s).edges = edgesOf s.settled.relationships := by
    rw [RelationshipGraph.edges, outgoing]
  have metadata : (g.load s).metadata = { s.metadata with
      totalNodes := (g.load s).nodes.length, totalEdges := (g.load s).edges.length } := rfl
  rw [snapshot, metadata, outgoing, nodes, edges]
  rfl

theorem faults_of_isText {listName : String} {ids : List String}
    (texts : ∀ id ∈ ids, NodeName.isText id = true) : NodeName.faults listName ids = [] := by
  apply List.filterMap_eq_nil_iff.mpr
  rintro ⟨id, i⟩ hi
  exact if_pos (texts id (List.fst_mem_of_mem_zipIdx hi))

theorem exported_eq_ok {s : GraphSnapshot α} (h : g.exported = .ok s) : s = g.snapshot := by
  unfold exported at h
  split at h
  · exact (Except.ok.inj h).symm
  · cases h

/-- Whether a graph can be handed out is up to its registered entities. -/
theorem exported_of_registered {g g' : RelationshipGraph α} {s : GraphSnapshot α}
    (h : g.exported = .ok s) (same : g'.registered = g.registered) :
    g'.exported = .ok g'.snapshot := by
  unfold exported at h ⊢
  rw [same]
  cases faults : NodeName.faults "nodes" g.registered with
  | nil => rfl
  | cons fault rest =>
    rw [faults] at h
    cases h

theorem exported_load (distinct : (names s.relationships).Nodup)
    (texts : ∀ id ∈ s.nodes, NodeName.isText id = true) :
    (g.load s).exported = .ok s.settled := by
  have known : ∀ id ∈ (g.load s).registered, NodeName.isText id = true :=
    fun id hid => texts id (List.mem_eraseDups.mp hid)
  unfold exported
  rw [faults_of_isText known, snapshot_load g distinct]

theorem registered_removeWhere (g : RelationshipGraph α) (source target : String)
    (wanted : RelationshipType → Bool) (now : Moment) :
    (g.removeWhere source target wanted now).2.registered = g.registered := by
  unfold removeWhere
  split
  · rfl
  · rfl

theorem registered_remove (g : RelationshipGraph α) (source target : String)
    (type : Option String) (now : Moment) :
    (g.remove source target type now).2.registered = g.registered := by
  unfold remove
  split
  · exact registered_removeWhere ..
  · split
    · exact registered_removeWhere ..
    · rfl

theorem nodup_registered_step [Scalar α] {g : RelationshipGraph α} (once : g.registered.Nodup)
    (s : GraphStep α) : (s.apply g).registered.Nodup := by
  cases s with
  | register id now =>
    rw [GraphStep.apply, register]
    split
    · exact once
    · next new =>
      refine List.nodup_append.mpr ⟨once, List.nodup_singleton id, ?_⟩
      intro a ha b hb
      rw [List.mem_singleton.mp hb]
      exact ne_of_mem_of_not_mem ha (by simpa using new)
  | add r now => exact once
  | remove source target type now =>
    rw [GraphStep.apply, registered_remove]
    exact once
  | load s => exact nodup_eraseDups s.nodes
  | validate now => exact once
  | clearCaches => exact once
  | analyze id now => exact (sameContents_analyze g id now).registered ▸ once
  | path source target hops => exact (sameContents_path g source target hops).registered ▸ once

theorem nodup_registered [Scalar α] {g : RelationshipGraph α} (h : Reachable g) :
    g.registered.Nodup := by
  induction h with
  | created made =>
    rw [(create_eq_ok made).2.2.1]
    exact List.nodup_nil
  | step s _ ih => exact nodup_registered_step ih s

/-- What a graph hands out is settled. -/
theorem Paired.settled {g : RelationshipGraph α} (h : Paired g) (once : g.registered.Nodup) :
    g.snapshot.settled = g.snapshot := by
  have filled : g.outgoing.filter (fun m => !m.2.isEmpty) = g.outgoing := by
    rw [List.filter_eq_self]
    intro m hm
    simpa using h.bySource.filled m hm
  have placed : g.outgoing.map (fun m => (m.1, m.2.map fun r => { r with source := m.1 })) =
      g.outgoing := by
    refine (List.map_congr_left ?_).trans (List.map_id g.outgoing)
    intro m hm
    have own : m.2.map (fun r => { r with source := m.1 }) = m.2 := by
      refine (List.map_congr_left ?_).trans (List.map_id m.2)
      intro r hr
      rw [← h.bySource.placed m hm r hr]
      rfl
    rw [own]
    rfl
  have known : g.registered.eraseDups = g.registered := eraseDups_of_nodup once
  have nodes : (nodesOf g.outgoing g.registered).length = g.metadata.totalNodes :=
    h.totalNodes.symm
  have edges : (edgesOf g.outgoing).length = g.metadata.totalEdges := h.totalEdges.symm
  rw [GraphSnapshot.settled, snapshot]
  dsimp only
  rw [filled, placed, known, nodes, edges]

/-- The keys of the edges to an entity are those of the whole graph, so the outgoing edges tell them
but for their order. -/
theorem Paired.keys_perm_of_outgoing {g g' : RelationshipGraph α} (h : Paired g) (h' : Paired g')
    (outgoing : g'.outgoing = g.outgoing) (id : String) :
    ((g'.incomingOf id).map (·.key)).Perm ((g.incomingOf id).map (·.key)) := by
  have edges : g'.edges = g.edges := congrArg edgesOf outgoing
  have perm' := h'.keys_perm id
  rw [edges] at perm'
  exact perm'.trans (h.keys_perm id).symm

theorem Paired.alike {g g' : RelationshipGraph α} (h : Paired g) (h' : Paired g')
    (options : g'.options = g.options) (outgoing : g'.outgoing = g.outgoing)
    (registered : g'.registered = g.registered) : Alike g g' := by
  have edges : g'.edges = g.edges := congrArg edgesOf outgoing
  have mentions : g'.mentioned = g.mentioned := by
    rw [mentioned, edges, registered]
    rfl
  constructor
  · exact options
  · exact outgoing
  · exact registered
  · intro id
    rw [Bool.eq_iff_iff, h'.has_iff_mem_mentioned, h.has_iff_mem_mentioned, mentions]
  · intro id
    simpa using (h.keys_perm_of_outgoing h' outgoing id).length_eq

/-- Graphs that answer alike, but for what stands at an edge when it is looked at from its target.
-/
structure SameAnswers [Scalar α] (g g' : RelationshipGraph α) : Prop where
  outgoing : g'.outgoing = g.outgoing
  registered : g'.registered = g.registered
  metadata : g'.metadata = g.metadata
  has : ∀ id, g'.has id = g.has id
  path : ∀ source target hops, (g'.path source target hops).1 = (g.path source target hops).1
  dependencyChain : ∀ id, g'.dependencyChain id = g.dependencyChain id
  dependencyCycles : ∀ id, g'.dependencyCycles id = g.dependencyCycles id
  indirect : ∀ id depth now, g'.indirect id depth now = g.indirect id depth now
  components : g'.components = g.components
  metrics : g'.metrics = g.metrics
  validate : ∀ now, (g'.validate now).1 = (g.validate now).1
  own : ∀ id, g'.relationshipsOf id false = g.relationshipsOf id false
  keys : ∀ id, ((g'.incomingOf id).map (·.key)).Perm ((g.incomingOf id).map (·.key))

/-- Behind the edges of every entity stand the same views of those to it, in some order. -/
def SameLookups (g g' : RelationshipGraph α) : Prop :=
  ∀ id, ∃ seen seen', g.relationshipsOf id true = g.outgoingOf id ++ seen ∧
    g'.relationshipsOf id true = g.outgoingOf id ++ seen' ∧ seen'.Perm seen

theorem SameLookups.perm {g g' : RelationshipGraph α} (h : SameLookups g g') (id : String) :
    (g'.relationshipsOf id true).Perm (g.relationshipsOf id true) := by
  obtain ⟨seen, seen', shown, shown', perm⟩ := h id
  rw [shown, shown']
  exact perm.append_left _

theorem Coherent.sameLookups {g g' : RelationshipGraph α} (h : Coherent g) (h' : Coherent g')
    (outgoing : g'.outgoing = g.outgoing) : SameLookups g g' := by
  intro id
  have edges : g'.edges = g.edges := congrArg edgesOf outgoing
  have perm' := incomingOf_perm h' id
  rw [edges] at perm'
  have perm := perm'.trans (incomingOf_perm h id).symm
  refine ⟨((g.incomingOf id).filter (!·.isSelfReference)).map (·.inverted),
    ((g'.incomingOf id).filter (!·.isSelfReference)).map (·.inverted), rfl, ?_,
    (perm.filter _).map _⟩
  rw [relationshipsOf, outgoingOf, outgoing]
  rfl

/-- A graph of the same settings that loads what a graph hands out hands out the same and answers
like it. -/
theorem Paired.reloaded [Scalar α] {g h : RelationshipGraph α} {s : GraphSnapshot α}
    (paired : Paired g) (once : g.registered.Nodup) (current : g.PathsCurrent)
    (settings : h.options = g.options) (handed : g.exported = .ok s) :
    (h.load s).exported = .ok s ∧ SameAnswers g (h.load s) := by
  obtain rfl := exported_eq_ok g handed
  have loaded := (coherent_load h g.snapshot).paired
  have same : (h.load g.snapshot).snapshot = g.snapshot := by
    rw [snapshot_load h paired.bySource.distinct, paired.settled once]
  have outgoing : (h.load g.snapshot).outgoing = g.outgoing :=
    congrArg GraphSnapshot.relationships same
  have alike : Alike g (h.load g.snapshot) :=
    paired.alike loaded settings outgoing (congrArg GraphSnapshot.nodes same)
  have again : (h.load g.snapshot).exported = .ok g.snapshot := by
    rw [exported_of_registered handed alike.registered, same]
  have forgotten : (h.load g.snapshot).Forgetful := ⟨rfl, rfl⟩
  refine ⟨again, ?_⟩
  constructor
  · exact alike.outgoing
  · exact alike.registered
  · exact congrArg GraphSnapshot.metadata same
  · exact alike.has
  · exact alike.path current forgotten.pathsCurrent
  · exact alike.dependencyChain
  · exact alike.dependencyCycles
  · exact alike.indirect
  · exact alike.components
  · exact alike.metrics
  · intro now
    rw [validate, validate, alike.issues]
  · intro id
    rw [relationshipsOf, relationshipsOf, alike.outgoingOf]
    rfl
  · exact paired.keys_perm_of_outgoing loaded outgoing

end RelationshipGraph

end EntityRules
