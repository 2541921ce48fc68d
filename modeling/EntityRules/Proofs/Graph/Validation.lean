import EntityRules.Proofs.Graph.Reloaded
import EntityRules.Proofs.Graph.Status

/-! What validating a graph finds and what it leaves behind. -/

namespace EntityRules

variable {α : Type}

/-- An edge and the same one after it was marked some more times. -/
structure EdgeObject.Marked {ι : Type} (now : Moment) (times : Nat) (e e' : EdgeObject ι α) :
    Prop where
  object : e'.object = e.object
  notes : e'.notes = e.notes
  count : e'.edge.metadata.validationCount = e.edge.metadata.validationCount + times
  time : e'.edge.metadata.lastValidated = some now
  rest : e'.edge.unmarked = e.edge.unmarked

/-- A defect at an edge. -/
def GraphIssue.ofEdge (defect : GraphDefect) (r : Relationship α) : GraphIssue :=
  ⟨defect, r.source, r.target, r.type⟩

namespace RelationshipGraph

open Members

variable {g : RelationshipGraph α} {now : Moment}

/-- The defects at an edge that stands behind some edges of the same source. -/
def defectsBehind (before : List (Relationship α)) (r : Relationship α) : List GraphIssue :=
  (if r.source = r.target then [.ofEdge .selfReference r] else []) ++
    if ∃ e ∈ before, e.target = r.target ∧ e.type = r.type then [.ofEdge .duplicate r] else []

/-- The targets and types that a look through the edges has come by are those of the edges before
the one looked at. -/
theorem issuesAt_eq {source : String} {seen : List (String × RelationshipType)}
    {before edges : List (Relationship α)} (own : ∀ r ∈ edges, r.source = source)
    (known : ∀ target type, (target, type) ∈ seen ↔
      ∃ e ∈ before, e.target = target ∧ e.type = type) :
    issuesAt source seen edges =
      edges.zipIdx.flatMap fun p => defectsBehind (before ++ edges.take p.2) p.1 := by
  induction edges generalizing seen before with
  | nil => rfl
  | cons r rest ih =>
    obtain ⟨first, own⟩ := List.forall_mem_cons.mp own
    have later : ∀ target type, (target, type) ∈ (r.target, r.type) :: seen ↔
        ∃ e ∈ before ++ [r], e.target = target ∧ e.type = type := by
      intro target type
      simp only [List.mem_cons, Prod.mk.injEq, known, List.mem_append, List.not_mem_nil, or_false]
      grind
    have here : (if r.isSelfReference then
        [(⟨.selfReference, source, r.target, r.type⟩ : GraphIssue)] else []) ++
        (if (r.target, r.type) ∈ seen then
          [(⟨.duplicate, source, r.target, r.type⟩ : GraphIssue)] else []) =
        defectsBehind before r := by
      simp only [defectsBehind, known, GraphIssue.ofEdge, first, Relationship.isSelfReference,
        decide_eq_true_eq]
    rw [issuesAt, here, ih own later, List.zipIdx_cons, List.zipIdx_succ, List.flatMap_cons,
      List.flatMap_map]
    simp

/-- The defects of a graph stand in the order of its edges. -/
theorem issues_eq (h : Keyed (·.source) g.outgoing) : g.issues = g.outgoing.flatMap fun m =>
    m.2.zipIdx.flatMap fun p => defectsBehind (m.2.take p.2) p.1 := by
  refine List.flatMap_congr fun m hm => ?_
  have none_before : ∀ target type, (target, type) ∈ ([] : List (String × RelationshipType)) ↔
      ∃ e ∈ ([] : List (Relationship α)), e.target = target ∧ e.type = type := by simp
  simpa using issuesAt_eq (h.placed m hm) none_before

/-- The edges of a source that are not reported as duplicates have different keys, and those are all
keys that were not seen before. -/
theorem countP_issuesAt {source : String} {edges : List (Relationship α)}
    (own : ∀ r ∈ edges, r.source = source) (seen : List (String × RelationshipType)) :
    (issuesAt source seen edges).countP (·.defect = .duplicate) +
      ((edges.map (·.key)).toFinset \ (seen.map (Prod.mk source)).toFinset).card =
        edges.length := by
  induction edges generalizing seen with
  | nil => simp [issuesAt]
  | cons r rest ih =>
    obtain ⟨first, own⟩ := List.forall_mem_cons.mp own
    have further := ih own ((r.target, r.type) :: seen)
    have key : r.key = (source, r.target, r.type) := by rw [Relationship.key, first]
    have self : (if r.isSelfReference then
        [(⟨.selfReference, source, r.target, r.type⟩ : GraphIssue)] else []).countP
        (·.defect = .duplicate) = 0 := by
      split <;> rfl
    simp only [List.map_cons, List.toFinset_cons] at further ⊢
    rw [issuesAt, List.countP_append, List.countP_append, self, key, List.length_cons]
    by_cases old : (r.target, r.type) ∈ seen
    · have there : (source, r.target, r.type) ∈ (seen.map (Prod.mk source)).toFinset := by
        simpa using old
      rw [Finset.insert_eq_of_mem there] at further
      rw [Finset.insert_sdiff_of_mem _ there, if_pos old]
      simp only [List.countP_cons, List.countP_nil, decide_true, if_true]
      omega
    · have new : (source, r.target, r.type) ∉ (seen.map (Prod.mk source)).toFinset := by
        simpa using old
      have split : insert (source, r.target, r.type)
          ((rest.map (·.key)).toFinset \ (seen.map (Prod.mk source)).toFinset) =
          insert (source, r.target, r.type) ((rest.map (·.key)).toFinset \
            insert (source, r.target, r.type) (seen.map (Prod.mk source)).toFinset) := by
        ext k
        by_cases same : k = (source, r.target, r.type) <;> simp [same]
      rw [Finset.insert_sdiff_of_notMem _ new, if_neg old, List.countP_nil, split,
        Finset.card_insert_of_notMem (by simp)]
      omega

theorem Keyed.tail {key : Relationship α → String} {m : String × List (Relationship α)}
    {rest : Members (List (Relationship α))} (h : Keyed key (m :: rest)) : Keyed key rest where
  distinct := (List.nodup_cons.mp h.distinct).2
  filled m' hm := h.filled m' (List.mem_cons_of_mem _ hm)
  placed m' hm := h.placed m' (List.mem_cons_of_mem _ hm)

/-- No edge of another source has a key that an edge of the first source has. -/
theorem Keyed.disjoint_keys {m : String × List (Relationship α)}
    {rest : Members (List (Relationship α))} (h : Keyed (·.source) (m :: rest)) :
    Disjoint (m.2.map (·.key)).toFinset ((edgesOf rest).map (·.key)).toFinset := by
  rw [List.disjoint_toFinset_iff_disjoint]
  intro k own other
  obtain ⟨r, hr, rfl⟩ := List.mem_map.mp own
  obtain ⟨r', hr', same⟩ := List.mem_map.mp other
  obtain ⟨m', hm', hr'⟩ := List.mem_flatMap.mp hr'
  have source : r'.source = r.source := congrArg Prod.fst same
  rw [h.placed m (List.mem_cons_self ..) r hr, h.tail.placed m' hm' r' hr'] at source
  have listed := mem_names_of_mem hm'
  rw [source] at listed
  exact (List.nodup_cons.mp h.distinct).1 listed

/-- There are as many duplicates as edges more than keys. -/
theorem Keyed.countP_issuesAt {ms : Members (List (Relationship α))} (h : Keyed (·.source) ms) :
    (ms.flatMap fun m => issuesAt m.1 [] m.2).countP (·.defect = .duplicate) +
      ((edgesOf ms).map (·.key)).toFinset.card = (edgesOf ms).length := by
  induction ms with
  | nil => rfl
  | cons m rest ih =>
    have others := ih h.tail
    have own := RelationshipGraph.countP_issuesAt (h.placed m (List.mem_cons_self ..)) []
    rw [List.flatMap_cons, List.countP_append, edgesOf, List.flatMap_cons, ← edgesOf,
      List.map_append, List.toFinset_append, Finset.card_union_of_disjoint h.disjoint_keys,
      List.length_append]
    simp only [List.map_nil, List.toFinset_nil, Finset.sdiff_empty] at own
    omega

/-- Work that keeps the ends and the types of edges is no part of what is looked at. -/
theorem issuesAt_map {f : Relationship α → Relationship α} (hf : Relationship.Superficial f)
    (source : String) (seen : List (String × RelationshipType)) (edges : List (Relationship α)) :
    issuesAt source seen (edges.map f) = issuesAt source seen edges := by
  induction edges generalizing seen with
  | nil => rfl
  | cons r rest ih =>
    rw [List.map_cons, issuesAt, ih, hf.isSelfReference, hf.target, hf.type]
    rfl

theorem issues_reworked {f : Relationship α → Relationship α} (hf : Relationship.Superficial f)
    (g : RelationshipGraph α) : (g.reworked f).issues = g.issues := by
  change (g.outgoing.map _).flatMap _ = g.outgoing.flatMap _
  simp only [List.flatMap_map, issuesAt_map hf]

/-- Marks are no part of what is looked at. -/
theorem SameEdges.issues {g g' : RelationshipGraph α} (h : SameEdges g g')
    (options : g'.options = g.options) : g'.issues = g.issues := by
  rw [← issues_reworked .unmarked g', (h.sameStore options).alike.issues,
    issues_reworked .unmarked g]

theorem SameEdges.has {g g' : RelationshipGraph α} (h : SameEdges g g')
    (options : g'.options = g.options) (id : String) : g'.has id = g.has id := by
  have same := (h.sameStore options).alike.has id
  rwa [has_reworked, has_reworked] at same

theorem exported_of_outgoing {g g' : RelationshipGraph α} (registered : g'.registered = g.registered) :
    g'.exported = g.exported.map fun s =>
      { s with relationships := g'.outgoing, metadata := g'.metadata } := by
  unfold exported
  rw [registered]
  split
  · rw [snapshot, registered]
    rfl
  · rfl

end RelationshipGraph

namespace ObjectGraph

open RelationshipGraph (Sound defectsBehind edgesOf issues_eq issues_eq_nil_iff)

variable {g : ObjectGraph α} {now : Moment}

theorem metadata_marked (now : Moment) (n : Nat) (r : Relationship α) :
    ((n + 1).repeat (RelationshipGraph.stamped now) r).metadata.validationCount =
        r.metadata.validationCount + (n + 1 : Nat) ∧
      ((n + 1).repeat (RelationshipGraph.stamped now) r).metadata.lastValidated = some now := by
  induction n with
  | zero => exact ⟨rfl, rfl⟩
  | succ n ih =>
    refine ⟨?_, rfl⟩
    have further : ((n + 2).repeat (RelationshipGraph.stamped now) r).metadata.validationCount =
        ((n + 1).repeat (RelationshipGraph.stamped now) r).metadata.validationCount + 1 := rfl
    rw [further, ih.1]
    omega

/-- An edge and the same one after a validation: it has a mark for every edge with its notes. -/
def Marks (g : ObjectGraph α) (now : Moment) (e e' : EdgeObject Origin α) : Prop :=
  e.Marked now (g.holders e.notes) e'

/-- The same names in the same order with the same edges, each marked. -/
def MarkedIndex (g : ObjectGraph α) (now : Moment) :
    Members (List (EdgeObject Origin α)) → Members (List (EdgeObject Origin α)) → Prop :=
  List.Forall₂ fun m m' => m'.1 = m.1 ∧ List.Forall₂ (g.Marks now) m.2 m'.2

theorem marks_marked {e : EdgeObject Origin α} (held : 0 < g.holders e.notes) :
    g.Marks now e (g.marked now e) := by
  obtain ⟨n, more⟩ := Nat.exists_eq_succ_of_ne_zero held.ne'
  have marks := metadata_marked now n e.edge
  rw [← Nat.succ_eq_add_one, ← more] at marks
  constructor
  · rfl
  · rfl
  · exact marks.1
  · exact marks.2
  · exact repeat_stamped (f := Relationship.unmarked) (fun _ => rfl) _ _

theorem marks_map {edges : List (EdgeObject Origin α)}
    (held : ∀ e ∈ edges, 0 < g.holders e.notes) :
    List.Forall₂ (g.Marks now) edges (edges.map (g.marked now)) := by
  rw [List.forall₂_map_right_iff]
  exact List.forall₂_same.mpr fun e he => marks_marked (held e he)

theorem markedIndex_map {ms : Members (List (EdgeObject Origin α))}
    (held : ∀ e ∈ edgesOf ms, 0 < g.holders e.notes) :
    g.MarkedIndex now ms (ms.map fun m => (m.1, m.2.map (g.marked now))) := by
  rw [MarkedIndex, List.forall₂_map_right_iff]
  refine List.forall₂_same.mpr fun m hm => ⟨rfl, marks_map fun e he => ?_⟩
  exact held e (List.mem_flatMap.mpr ⟨m, hm, he⟩)

theorem marked_inverted (e : EdgeObject Origin α) :
    g.marked now { e with edge := e.edge.inverted } =
      { g.marked now e with edge := (g.marked now e).edge.inverted } := by
  have commutes : ∀ (n : Nat) (r : Relationship α),
      n.repeat (RelationshipGraph.stamped now) r.inverted =
        (n.repeat (RelationshipGraph.stamped now) r).inverted := by
    intro n r
    induction n with
    | zero => rfl
    | succ n ih => rw [Nat.repeat, Nat.repeat, ih]; rfl
  simp only [marked, commutes]

theorem relationshipsOf_validate (g : ObjectGraph α) (now : Moment) (id : String) (both : Bool) :
    (g.validate now).2.relationshipsOf id both =
      (g.relationshipsOf id both).map (g.marked now) := by
  have loops : ∀ e, (g.marked now e).edge.isSelfReference = e.edge.isSelfReference := by
    intro e
    rw [Relationship.isSelfReference, source_marked, target_marked, ← Relationship.isSelfReference]
  unfold relationshipsOf
  rw [outgoingOf_validate, incomingOf_validate, List.map_append]
  congr 1
  split
  · rw [List.filter_map, List.map_map, List.map_map]
    simp only [Function.comp_def, loops, marked_inverted]
  · rfl

/-- What is shown of an edge shows its notes. -/
theorem Coherent.holders_relationshipsOf (h : Coherent g) {id : String} {both : Bool} :
    ∀ e ∈ g.relationshipsOf id both, 0 < g.holders e.notes := by
  intro e he
  rcases List.mem_append.mp he with own | seen
  · exact holders_pos (h.mem_of_outgoingOf own)
  · split at seen
    · obtain ⟨o, ho, rfl⟩ := List.mem_map.mp seen
      have stored := h.mem_of_incomingOf (List.mem_filter.mp ho).1
      exact holders_pos (e := o) stored
    · cases seen

/-- What validating a graph at a time reports, and what it makes of the graph. -/
structure Validated (now : Moment) (g : ObjectGraph α) (report : GraphReport)
    (g' : ObjectGraph α) : Prop where
  /-- A self-reference for every edge that leads back, and a duplicate for every edge with an
  earlier one of the same target and type among those of its source. -/
  issues : report.issues = g.view.outgoing.flatMap fun m =>
    m.2.zipIdx.flatMap fun p => defectsBehind (m.2.take p.2) p.1
  isValid_iff : report.isValid = true ↔ Sound g.view
  duplicates : report.issues.countP (·.defect = .duplicate) +
    (g.edges.map (·.key)).toFinset.card = g.edges.length
  status : report.status = if report.isValid then .valid else .invalid
  metadata : g'.metadata = { g.metadata with status := report.status }
  edges : List.Forall₂ (g.Marks now) g.edges g'.edges
  once : (g.edges.map (·.notes)).Nodup → ∀ e ∈ g.edges, g.holders e.notes = 1
  outgoing : g.MarkedIndex now g.outgoing g'.outgoing
  incoming : g.MarkedIndex now g.incoming g'.incoming
  /-- What is seen from the target of an edge is what is stored under its source. -/
  stored : ∀ e ∈ edgesOf g'.incoming, e ∈ g'.edges
  relationshipsOf : ∀ id both, List.Forall₂ (g.Marks now)
    (g.relationshipsOf id both) (g'.relationshipsOf id both)
  exported : g'.view.exported = g.view.exported.map fun s =>
    { s with relationships := edgeValues g'.outgoing, metadata := g'.metadata }
  registered : g'.registered = g.registered
  nodes : g'.view.nodes = g.view.nodes
  has : ∀ id, g'.view.has id = g.view.has id
  options : g'.options = g.options
  revision : g'.revision = g.revision
  analyses : g'.analyses = g.analyses
  paths : g'.paths = g.paths
  again : ∀ later, (g'.validate later).1 = report

/-- Validating any graph, with keys repeated or not, reports exactly its defects and leaves exactly
its marks, one at each edge for every edge that shares the notes. -/
theorem validate_reports [Scalar α] {kind : ObjectSnapshot α → Prop} (h : Reachable kind g)
    (now : Moment) : Validated now g (g.validate now).1 (g.validate now).2 := by
  have coherent := coherent_reachable h
  have same := sameEdges_validate g now
  have bySource := coherent.paired.bySource
  constructor
  · exact issues_eq bySource
  · rw [GraphReport.isValid, List.isEmpty_iff]
    exact issues_eq_nil_iff bySource
  · have counted := bySource.countP_issuesAt
    rw [show edgesOf g.view.outgoing = g.edges.map (·.edge) from edges_view g, List.map_map,
      List.length_map] at counted
    exact counted
  · rfl
  · rfl
  · rw [edges_validate]
    exact marks_map fun e => holders_pos
  · exact fun own e => holders_of_nodup own
  · exact markedIndex_map fun e => holders_pos
  · exact markedIndex_map fun e he => holders_pos (coherent.stored e he)
  · exact (coherent.validate now).stored
  · intro id both
    rw [relationshipsOf_validate]
    exact marks_map coherent.holders_relationshipsOf
  · exact RelationshipGraph.exported_of_outgoing rfl
  · rfl
  · exact nodes_validate g now
  · exact same.has rfl
  · rfl
  · rfl
  · rfl
  · rfl
  · intro later
    change (⟨if (g.validate now).2.view.issues.isEmpty then .valid else .invalid,
      (g.validate now).2.view.issues⟩ : GraphReport) = _
    simp only [same.issues rfl]
    rfl

namespace Sample

open RelationshipGraph.Sample (edge noon)

/-- An edge that is listed twice, a loop that is listed twice, and an edge that is fine. -/
def tangled : ObjectSnapshot Float :=
  { relationships := [
      ("a", [single 0 (edge "first" "x" "b"), single 1 (edge "loop" "a" "a"),
        single 2 (edge "second" "a" "b"), single 3 (edge "again" "a" "a")]),
      ("b", [single 4 (edge "back" "b" "a")])]
    metadata := .fresh noon, nodes := ["c"] }

/-- Two edges with the same notes. -/
def noted : ObjectSnapshot Float :=
  { relationships := [("a", [⟨0, 0, edge "first" "a" "b"⟩, ⟨1, 0, edge "second" "a" "c"⟩])]
    metadata := .fresh noon, nodes := [] }

end Sample

/-- Of five edges with three keys two are loops and two are duplicates, one of them being both. -/
theorem validate_reports_tangled : ∃ g : ObjectGraph Float, Reachable ObjectSnapshot.ListsOnce g ∧
    ((g.validate RelationshipGraph.Sample.noon).1.issues.map fun i =>
      (i.defect, i.source, i.target)) =
      [(.selfReference, "a", "a"), (.duplicate, "a", "b"), (.selfReference, "a", "a"),
        (.duplicate, "a", "a")] ∧
    (g.edges.map (·.notes)).Nodup ∧
    Validated RelationshipGraph.Sample.noon g (g.validate RelationshipGraph.Sample.noon).1
      (g.validate RelationshipGraph.Sample.noon).2 := by
  obtain ⟨e, made⟩ : ∃ e, create RelationshipGraph.Sample.options
    RelationshipGraph.Sample.noon = .ok e := ⟨_, rfl⟩
  have once : Sample.tangled.ListsOnce := by decide
  have fits : EdgeObject.Consistent (edgesOf Sample.tangled.relationships) :=
    .of_nodup once (by decide)
  have reached : Reachable ObjectSnapshot.ListsOnce (ObjectStep.apply e (.load Sample.tangled)) :=
    .step _ (.created made) fits fun t same => ObjectStep.load.inj same ▸ once
  refine ⟨_, reached, ?_, ?_, validate_reports reached RelationshipGraph.Sample.noon⟩
  · cases made
    decide
  · cases made
    decide

/-- Two edges that share their notes are marked twice at once. -/
theorem validate_noted : ∃ g : ObjectGraph Float, Reachable ObjectSnapshot.ListsOnce g ∧
    g.edges.map (·.edge.metadata.validationCount) = [0, 0] ∧
    (g.validate RelationshipGraph.Sample.noon).2.edges.map
      (·.edge.metadata.validationCount) = [2, 2] ∧
    ¬ List.Forall₂ (EdgeObject.Marked RelationshipGraph.Sample.noon 1) g.edges
      (g.validate RelationshipGraph.Sample.noon).2.edges := by
  obtain ⟨e, made⟩ : ∃ e, create RelationshipGraph.Sample.options
    RelationshipGraph.Sample.noon = .ok e := ⟨_, rfl⟩
  have once : Sample.noted.ListsOnce := by decide
  have fits : EdgeObject.Consistent (edgesOf Sample.noted.relationships) := by
    refine ⟨fun _ he _ ho same => List.inj_on_of_nodup_map once he ho same, ?_⟩
    have fresh : ∀ e ∈ edgesOf Sample.noted.relationships,
        e.edge.metadata = .fresh RelationshipGraph.Sample.noon none := by
      simp [edgesOf, Sample.noted, RelationshipGraph.Sample.edge]
    intro e he o ho _
    rw [fresh e he, fresh o ho]
  have reached : Reachable ObjectSnapshot.ListsOnce (ObjectStep.apply e (.load Sample.noted)) :=
    .step _ (.created made) fits fun t same => ObjectStep.load.inj same ▸ once
  have before : (ObjectStep.apply e (.load Sample.noted)).edges.map
      (·.edge.metadata.validationCount) = [0, 0] := by
    cases made
    decide
  have after : ((ObjectStep.apply e (.load Sample.noted)).validate
      RelationshipGraph.Sample.noon).2.edges.map (·.edge.metadata.validationCount) = [2, 2] := by
    cases made
    decide
  refine ⟨_, reached, before, after, fun marked => ?_⟩
  have counts : ∀ {es es' : List (EdgeObject Origin Float)},
      List.Forall₂ (EdgeObject.Marked RelationshipGraph.Sample.noon 1) es es' →
        es'.map (·.edge.metadata.validationCount) =
          (es.map (·.edge.metadata.validationCount)).map (· + 1) := by
    intro es es' marked
    induction marked with
    | nil => rfl
    | cons first _ ih => simp [ih, first.count]
  have once := counts marked
  rw [before, after] at once
  exact absurd once (by decide)

end ObjectGraph

end EntityRules
