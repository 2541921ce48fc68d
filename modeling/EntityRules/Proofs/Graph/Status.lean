import EntityRules.Proofs.Graph.EdgeMap
import EntityRules.Proofs.Graph.Snapshot

/-! The status that a graph notes about itself. -/

namespace EntityRules.RelationshipGraph

open Members

variable {α : Type} {g : RelationshipGraph α}

/-- No edge leads back to where it starts, and no two edges have the same source, target and
type. -/
structure Sound (g : RelationshipGraph α) : Prop where
  leads_on : ∀ r ∈ g.edges, r.source ≠ r.target
  distinct : (g.edges.map (·.key)).Nodup

/-- The graphs that steps lead to from an empty one, if every snapshot that is loaded was handed out
by such a graph. -/
inductive Homegrown [Scalar α] : RelationshipGraph α → Prop where
  | created {options : GraphOptions α} {now : Moment} {g : RelationshipGraph α} :
    create options now = .ok g → Homegrown g
  | step {g : RelationshipGraph α} (s : GraphStep α) (own : ∀ t, s ≠ .load t) :
    Homegrown g → Homegrown (s.apply g)
  | load {g h : RelationshipGraph α} {s : GraphSnapshot α} :
    Homegrown g → Homegrown h → h.exported = .ok s → Homegrown (g.load s)

theorem Homegrown.reachable [Scalar α] (h : Homegrown g) : Reachable g := by
  induction h with
  | created made => exact .created made
  | step s _ _ ih => exact .step s ih
  | @load _ _ s _ _ _ ih _ => exact .step (.load s) ih

theorem Homegrown.run [Scalar α] (h : Homegrown g) {steps : List (GraphStep α)}
    (own : ∀ s ∈ steps, ∀ t, s ≠ .load t) : Homegrown (steps.foldl GraphStep.apply g) := by
  induction steps generalizing g with
  | nil => exact h
  | cons s rest ih =>
    obtain ⟨first, own⟩ := List.forall_mem_cons.mp own
    exact ih (.step s first h) own

theorem issuesAt_eq_nil_iff (source : String) (seen : List (String × RelationshipType))
    (edges : List (Relationship α)) :
    issuesAt source seen edges = [] ↔ (∀ r ∈ edges, r.isSelfReference = false) ∧
      (edges.map fun r => (r.target, r.type)).Nodup ∧
      ∀ r ∈ edges, (r.target, r.type) ∉ seen := by
  induction edges generalizing seen with
  | nil => simp [issuesAt]
  | cons r rest ih =>
    have self : (if r.isSelfReference then
        [(⟨.selfReference, source, r.target, r.type⟩ : GraphIssue)] else []) = [] ↔
        r.isSelfReference = false := by
      cases r.isSelfReference <;> simp
    have again : (if (r.target, r.type) ∈ seen then
        [(⟨.duplicate, source, r.target, r.type⟩ : GraphIssue)] else []) = [] ↔
        (r.target, r.type) ∉ seen := by
      by_cases old : (r.target, r.type) ∈ seen <;> simp [old]
    rw [issuesAt, List.append_eq_nil_iff, List.append_eq_nil_iff, self, again, ih,
      List.forall_mem_cons, List.forall_mem_cons, List.map_cons, List.nodup_cons]
    simp only [List.mem_map, List.mem_cons, not_or, not_exists, not_and]
    constructor
    · rintro ⟨⟨first, new⟩, others, apart, later⟩
      exact ⟨⟨first, others⟩, ⟨fun e he same => (later e he).1 same, apart⟩, new,
        fun e he => (later e he).2⟩
    · rintro ⟨⟨first, others⟩, ⟨differ, apart⟩, new, later⟩
      exact ⟨⟨first, new⟩, others, apart, fun e he => ⟨differ e he, later e he⟩⟩

/-- Edges under their sources have different keys if those of each source have. -/
theorem Keyed.nodup_key_iff {ms : Members (List (Relationship α))} (h : Keyed (·.source) ms) :
    ((edgesOf ms).map (·.key)).Nodup ↔
      ∀ m ∈ ms, (m.2.map fun r => (r.target, r.type)).Nodup := by
  have keys : ∀ m ∈ ms, m.2.map (·.key) =
      (m.2.map fun r => (r.target, r.type)).map (Prod.mk m.1) := by
    intro m hm
    rw [List.map_map]
    exact List.map_congr_left fun r hr => by rw [Relationship.key, h.placed m hm r hr]; rfl
  have apart : ms.Pairwise fun m m' => List.Disjoint (m.2.map (·.key)) (m'.2.map (·.key)) := by
    refine List.Pairwise.imp_of_mem ?_ (List.pairwise_map.mp h.distinct)
    intro m m' hm hm' differ k hk hk'
    obtain ⟨r, hr, rfl⟩ := List.mem_map.mp hk
    obtain ⟨r', hr', same⟩ := List.mem_map.mp hk'
    apply differ
    rw [← h.placed m hm r hr, ← h.placed m' hm' r' hr']
    exact (congrArg Prod.fst same).symm
  rw [edgesOf, List.map_flatMap, List.nodup_flatMap]
  constructor
  · rintro ⟨each, -⟩ m hm
    have own := each m hm
    rw [keys m hm] at own
    exact own.of_map _
  · intro each
    refine ⟨fun m hm => ?_, apart⟩
    rw [keys m hm]
    exact (each m hm).map (Prod.mk_right_injective m.1)

/-- Validating finds nothing in sound graphs, and in no others. -/
theorem issues_eq_nil_iff (h : Keyed (·.source) g.outgoing) : g.issues = [] ↔ Sound g := by
  have each : g.issues = [] ↔ ∀ m ∈ g.outgoing, (∀ r ∈ m.2, r.isSelfReference = false) ∧
      (m.2.map fun r => (r.target, r.type)).Nodup := by
    simp [issues, List.flatMap_eq_nil_iff, issuesAt_eq_nil_iff]
  rw [each]
  constructor
  · intro clean
    refine ⟨?_, h.nodup_key_iff.mpr fun m hm => (clean m hm).2⟩
    intro r hr
    obtain ⟨m, hm, hr⟩ := List.mem_flatMap.mp hr
    simpa [Relationship.isSelfReference] using (clean m hm).1 r hr
  · rintro ⟨leads_on, distinct⟩ m hm
    refine ⟨fun r hr => ?_, h.nodup_key_iff.mp distinct m hm⟩
    simpa [Relationship.isSelfReference] using leads_on r (List.mem_flatMap.mpr ⟨m, hm, hr⟩)

/-- What every step keeps: no key twice, and a status that a look at the self-references bears
out. -/
structure Honest (g : RelationshipGraph α) : Prop where
  keyed : ∃ m, Holds g m
  valid : g.metadata.status = .valid → ∀ r ∈ g.edges, r.source ≠ r.target
  invalid : g.metadata.status = .invalid → ∃ r ∈ g.edges, r.source = r.target

/-- With no key twice, the self-references are all that validating can find. -/
theorem Honest.sound_iff (h : Honest g) : Sound g ↔ ∀ r ∈ g.edges, r.source ≠ r.target := by
  obtain ⟨m, held⟩ := h.keyed
  exact ⟨Sound.leads_on, fun leads_on => ⟨leads_on, held.nodup⟩⟩

/-- A step that leaves the outgoing edges and the status leaves what the status says. -/
theorem Honest.congr (h : Honest g) {g' : RelationshipGraph α} (outgoing : g'.outgoing = g.outgoing)
    (status : g'.metadata.status = g.metadata.status) : Honest g' := by
  have edges : g'.edges = g.edges := congrArg edgesOf outgoing
  obtain ⟨⟨m, held⟩, valid, invalid⟩ := h
  constructor
  · exact ⟨m, held.of_outgoing outgoing⟩
  · rwa [status, edges]
  · rwa [status, edges]

theorem honest_created {options : GraphOptions α} {now : Moment}
    (made : create options now = .ok g) : Honest g := by
  obtain ⟨outgoing, -, -, metadata⟩ := create_eq_ok made
  have edges : g.edges = [] := by rw [RelationshipGraph.edges, outgoing]; rfl
  constructor
  · exact ⟨fun _ => none, fun k => by simp [edges]⟩
  · simp [edges]
  · simp [metadata, GraphMetadata.fresh]

theorem status_register (g : RelationshipGraph α) (id : String) (now : Moment) :
    (g.register id now).metadata.status = g.metadata.status := by
  unfold register
  split <;> rfl

theorem Coherent.mem_edges_add (h : Coherent g) {r e : Relationship α} {now : Moment}
    (he : e ∈ (g.add r now).edges) : e = r ∨ e ∈ g.edges := by
  obtain ⟨before, behind, whole, added, -⟩ := h.edges_add r now
  rw [added] at he
  rw [whole]
  rcases List.mem_append.mp he with he | he
  · rcases List.mem_append.mp he with he | he
    · exact .inr (by simp [he])
    · exact (mem_place he).imp_right fun he => by simp [he]
  · exact .inr (by simp [he])

theorem honest_add (hc : Coherent g) (h : Honest g) (r : Relationship α) (now : Moment) :
    Honest (g.add r now) := by
  have status : (g.add r now).metadata.status =
      if r.isSelfReference || g.metadata.status = .invalid then .needsUpdate
      else g.metadata.status := rfl
  obtain ⟨⟨m, held⟩, valid, -⟩ := h
  constructor
  · exact ⟨_, held.add hc r now⟩
  · intro noted e he
    rw [status] at noted
    split at noted
    · cases noted
    · next quiet =>
      rcases hc.mem_edges_add he with rfl | he
      · simp only [Relationship.isSelfReference, Bool.or_eq_true, not_or] at quiet
        simpa using quiet.1
      · exact valid noted e he
  · intro noted
    rw [status] at noted
    split at noted
    · cases noted
    · next quiet => simp [noted] at quiet

/-- Removing does nothing, or it takes back that the graph is invalid. -/
theorem status_remove (g : RelationshipGraph α) (source target : String) (type : Option String)
    (now : Moment) :
    (g.remove source target type now).2 = g ∨
      (g.remove source target type now).2.metadata.status =
        if g.metadata.status = .invalid then .needsUpdate else g.metadata.status := by
  rw [remove_eq]
  unfold removeWhere
  split
  · exact .inr rfl
  · exact .inl rfl

theorem honest_remove (hc : Coherent g) (h : Honest g) (source target : String)
    (type : Option String) (now : Moment) : Honest (g.remove source target type now).2 := by
  rcases status_remove g source target type now with same | status
  · rwa [same]
  · obtain ⟨⟨m, held⟩, valid, -⟩ := h
    constructor
    · exact ⟨_, held.remove hc source target type now⟩
    · intro noted e he
      rw [hc.edges_remove] at he
      rw [status] at noted
      split at noted
      · cases noted
      · exact valid noted e (List.mem_filter.mp he).1
    · intro noted
      rw [status] at noted
      split at noted
      · cases noted
      · next quiet => exact absurd noted quiet

theorem honest_validate (hc : Coherent g) (h : Honest g) (now : Moment) :
    Honest (g.validate now).2 := by
  have edges : (g.validate now).2.edges = g.edges.map (stamped now) := edgesOf_map ..
  have status : (g.validate now).2.metadata.status =
      if g.issues.isEmpty then .valid else .invalid := rfl
  have found : g.issues = [] ↔ ∀ r ∈ g.edges, r.source ≠ r.target :=
    (issues_eq_nil_iff hc.bySource).trans h.sound_iff
  obtain ⟨m, held⟩ := h.keyed
  constructor
  · exact ⟨_, held.validate now⟩
  · intro noted r hr
    rw [edges] at hr
    obtain ⟨e, he, rfl⟩ := List.mem_map.mp hr
    rw [status] at noted
    split at noted
    · next none => exact found.mp (List.isEmpty_iff.mp none) e he
    · cases noted
  · intro noted
    rw [status] at noted
    split at noted
    · cases noted
    · next some =>
      rw [List.isEmpty_iff, found] at some
      push Not at some
      obtain ⟨r, hr, loop⟩ := some
      exact ⟨stamped now r, edges ▸ List.mem_map_of_mem hr, loop⟩

/-- A snapshot brings the edges and the status of the graph that handed it out. -/
theorem honest_load [Scalar α] {g h : RelationshipGraph α} {s : GraphSnapshot α}
    (reached : Reachable h) (honest : Honest h) (handed : h.exported = .ok s) :
    Honest (g.load s) := by
  obtain rfl := exported_eq_ok h handed
  have coherent := coherent_reachable reached
  have settled := coherent.paired.settled (nodup_registered reached)
  have outgoing : (g.load h.snapshot).outgoing = h.outgoing :=
    (outgoing_load g coherent.bySource.distinct).trans
      (congrArg GraphSnapshot.relationships settled)
  exact honest.congr outgoing rfl

theorem honest_step [Scalar α] (hc : Coherent g) (h : Honest g) {s : GraphStep α}
    (own : ∀ t, s ≠ .load t) : Honest (s.apply g) := by
  cases s with
  | register id now => exact h.congr (outgoing_register g id now) (status_register g id now)
  | add r now => exact honest_add hc h r now
  | remove source target type now => exact honest_remove hc h source target type now
  | load s => exact absurd rfl (own s)
  | validate now => exact honest_validate hc h now
  | clearCaches => exact h.congr rfl rfl
  | analyze id now =>
    have same := sameContents_analyze g id now
    exact h.congr same.outgoing (congrArg GraphMetadata.status same.metadata)
  | path source target hops =>
    have same := sameContents_path g source target hops
    exact h.congr same.outgoing (congrArg GraphMetadata.status same.metadata)

theorem honest_homegrown [Scalar α] (h : Homegrown g) : Honest g := by
  induction h with
  | created made => exact honest_created made
  | step s own before ih => exact honest_step (coherent_reachable before.reachable) ih own
  | load _ source handed _ ih => exact honest_load source.reachable ih handed

/-- A graph that is noted as valid is sound, so that validating it would report nothing; one that is
noted as invalid has defects that validating would report. -/
theorem status_agrees [Scalar α] (h : Homegrown g) :
    (g.metadata.status = .valid → Sound g ∧ ∀ now, (g.validate now).1.issues = []) ∧
      (g.metadata.status = .invalid → ∀ now, (g.validate now).1.issues ≠ []) := by
  have honest := honest_homegrown h
  have found := issues_eq_nil_iff (coherent_reachable h.reachable).bySource
  constructor
  · intro noted
    have sound := honest.sound_iff.mpr (honest.valid noted)
    exact ⟨sound, fun _ => found.mpr sound⟩
  · intro noted _ none
    obtain ⟨r, hr, loop⟩ := honest.invalid noted
    exact (found.mp none).leads_on r hr loop

namespace Sample

/-- A loop is stored and found. -/
def looped : List (GraphStep Float) :=
  [.register "c" noon, .add (edge "first" "a" "b") noon, .add (edge "loop" "b" "b") noon,
    .validate noon]

/-- The loop is removed, and the graph is validated again. -/
def unlooped : List (GraphStep Float) :=
  [.remove "b" "b" none noon, .validate noon, .add (edge "second" "a" "b") noon]

end Sample

/-- A graph that loads what another one handed out takes over that it is invalid, and without the
loop it is valid again. -/
theorem status_agrees_loaded : ∃ g g' : RelationshipGraph Float, Homegrown g ∧ Homegrown g' ∧
    g.metadata.status = .invalid ∧ (g.validate Sample.noon).1.issues ≠ [] ∧
    g'.metadata.status = .valid ∧ Sound g' ∧ (g'.validate Sample.noon).1.issues = [] := by
  obtain ⟨e, made⟩ : ∃ e, create Sample.options Sample.noon = .ok e := ⟨_, rfl⟩
  have empty : Homegrown e := .created made
  have source : Homegrown (Sample.looped.foldl GraphStep.apply e) :=
    empty.run (by simp [Sample.looped])
  have handed : (Sample.looped.foldl GraphStep.apply e).exported =
      .ok (Sample.looped.foldl GraphStep.apply e).snapshot := by
    cases made
    rfl
  have loaded : Homegrown (e.load (Sample.looped.foldl GraphStep.apply e).snapshot) :=
    .load empty source handed
  have own : ∀ s ∈ Sample.unlooped, ∀ t, s ≠ .load t := by simp [Sample.unlooped]
  have freed := loaded.run own
  have invalid : (e.load (Sample.looped.foldl GraphStep.apply e).snapshot).metadata.status =
      .invalid := by
    cases made
    rfl
  have valid : (Sample.unlooped.foldl GraphStep.apply
      (e.load (Sample.looped.foldl GraphStep.apply e).snapshot)).metadata.status = .valid := by
    cases made
    decide
  obtain ⟨sound, clean⟩ := (status_agrees freed).1 valid
  exact ⟨_, _, loaded, freed, invalid, (status_agrees loaded).2 invalid _, valid, sound, clean _⟩

end EntityRules.RelationshipGraph
