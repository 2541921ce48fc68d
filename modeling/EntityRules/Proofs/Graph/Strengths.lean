import EntityRules.Proofs.Graph.Indirect
import EntityRules.Proofs.Graph.Status
import EntityRules.Proofs.Graph.Subgraph
import EntityRules.Proofs.Number.Mean
import EntityRules.Proofs.Reread.Field

/-! Strengths between zero and one. -/

namespace EntityRules

open Binary64

variable {α : Type}

namespace Relationship

open Decode Decoded

theorem isShare_strengthFrom {j : Json} {x : Float} (h : strengthFrom j = .ok x) : IsShare x := by
  unfold strengthFrom at h
  split at h
  · split at h
    · cases h
      exact clamp_isShare _
    · cases h
  · cases h
    exact clamp_isShare _
  · cases h
    split
    · exact isShare_one
    · exact isShare_zero
  · split at h
    · cases h
      exact clamp_isShare _
    · cases h
  · cases h

theorem isShare_decode {now : Moment} {document : Json} {r : Relationship Float}
    (h : decode now document = .ok r) : IsShare r.strength := by
  refine yields_record (P := fun r => IsShare r.strength) (fun ms => ?_) document r h
  refine yields_seq (yields_seq (yields_seq (yields_seq (yields_seq (yields_seq (yields_seq
    (yields_map ?_)))))))
  intro id _ source _ target _ type _ strength given _ _ _ _ _ _
  exact yields_field (fun _ _ => isShare_strengthFrom) isShare_one strength given

end Relationship

/-- The edges that a step brings in. -/
def GraphStep.brought : GraphStep α → List (Relationship α)
  | .add r _ => [r]
  | .load s => RelationshipGraph.edgesOf s.relationships
  | _ => []

namespace RelationshipGraph

section

variable {g : RelationshipGraph α} {r : Relationship α}

theorem mem_edges_load {s : GraphSnapshot α} (hr : r ∈ (g.load s).edges) : r ∈ edgesIn s := by
  have keyed := keyed_indexBy (fun r : Relationship α => r.source) (edgesIn s)
  have own := keyed.filter_edgesOf r.source
  rw [under_indexBy] at own
  have there : r ∈ (edgesOf (indexBy (·.source) (edgesIn s))).filter (·.source = r.source) :=
    List.mem_filter.mpr ⟨hr, decide_eq_true rfl⟩
  rw [own] at there
  exact (List.mem_filter.mp there).1

/-- No step makes a new strength. -/
theorem Coherent.strength_of_mem_step [Scalar α] (h : Coherent g) (s : GraphStep α)
    (hr : r ∈ (s.apply g).edges) :
    ∃ e, (e ∈ s.brought ∨ e ∈ g.edges) ∧ e.strength = r.strength := by
  cases s with
  | register id now =>
    rw [GraphStep.apply, edges, outgoing_register] at hr
    exact ⟨r, .inr hr, rfl⟩
  | add e now =>
    rcases h.mem_edges_add hr with rfl | old
    · exact ⟨r, .inl (List.mem_singleton_self r), rfl⟩
    · exact ⟨r, .inr old, rfl⟩
  | remove source target type now =>
    rw [GraphStep.apply, h.edges_remove] at hr
    exact ⟨r, .inr (List.mem_filter.mp hr).1, rfl⟩
  | load s =>
    obtain ⟨m, hm, listed⟩ := List.mem_flatMap.mp (mem_edges_load hr)
    obtain ⟨e, he, rfl⟩ := List.mem_map.mp listed
    exact ⟨e, .inl (List.mem_flatMap.mpr ⟨m, hm, he⟩), rfl⟩
  | validate now =>
    rw [GraphStep.apply, show (g.validate now).2.edges = _ from edgesOf_map ..] at hr
    obtain ⟨e, he, rfl⟩ := List.mem_map.mp hr
    exact ⟨e, .inr he, rfl⟩
  | clearCaches => exact ⟨r, .inr hr, rfl⟩
  | analyze id now =>
    rw [GraphStep.apply, edges, (sameContents_analyze g id now).outgoing] at hr
    exact ⟨r, .inr hr, rfl⟩
  | path source target hops =>
    rw [GraphStep.apply, edges, (sameContents_path g source target hops).outgoing] at hr
    exact ⟨r, .inr hr, rfl⟩

/-- An edge that a graph hands out when it is asked for something. -/
inductive HandsOut [Scalar α] (g : RelationshipGraph α) : Relationship α → Prop where
  | lookedUp (id : String) (both : Bool) {r : Relationship α} :
    r ∈ g.relationshipsOf id both → HandsOut g r
  | indirect (id : String) (depth : Option (Extent Float)) (now : Moment)
    {found : List (Relationship α)} {r : Relationship α} :
    g.indirect id depth now = .ok found → r ∈ found → HandsOut g r
  | exported {s : GraphSnapshot α} {r : Relationship α} :
    g.exported = .ok s → r ∈ edgesOf s.relationships → HandsOut g r
  | subgraph (center : String) (depth : Int) (now : Moment) {r : Relationship α} :
    r ∈ edgesOf (g.subgraph center depth now).relationships → HandsOut g r
  | analyzed (id : String) (now : Moment) {a : RelationshipAnalysis α} {r : Relationship α} :
    (g.analyze id now).1 = .ok a → r ∈ a.direct ++ a.indirect → HandsOut g r

/-- An edge that is looked up is a stored one, or one turned round. -/
theorem Coherent.strength_of_mem_relationshipsOf (h : Coherent g) {id : String} {both : Bool}
    (hr : r ∈ g.relationshipsOf id both) : ∃ e ∈ g.edges, e.strength = r.strength := by
  rcases List.mem_append.mp hr with own | seen
  · rw [outgoingOf_eq, ← h.bySource.filter_edgesOf id] at own
    exact ⟨r, (List.mem_filter.mp own).1, rfl⟩
  · split at seen
    · obtain ⟨e, he, rfl⟩ := List.mem_map.mp seen
      exact ⟨e, ((mem_incomingOf h).mp (List.mem_filter.mp he).1).1, rfl⟩
    · cases seen

theorem Coherent.relationshipsOf_eq_nil (h : Coherent g) {id : String}
    (apart : ∀ r ∈ g.edges, r.source ≠ id ∧ r.target ≠ id) (both : Bool) :
    g.relationshipsOf id both = [] := by
  have own : g.outgoingOf id = [] := by
    rw [outgoingOf_eq, ← h.bySource.filter_edgesOf id, List.filter_eq_nil_iff]
    intro r hr
    simpa using (apart r hr).1
  have others : g.incomingOf id = [] := by
    rw [List.eq_nil_iff_forall_not_mem]
    intro r hr
    obtain ⟨stored, ends⟩ := (mem_incomingOf h).mp hr
    exact (apart r stored).2 ends
  simp [relationshipsOf, own, others]

theorem Coherent.strength_of_mem_subgraph (h : Coherent g) {center : String} {depth : Int}
    {now : Moment} (hr : r ∈ edgesOf (g.subgraph center depth now).relationships) :
    ∃ e ∈ g.edges, e.strength = r.strength := by
  obtain ⟨m, hm, hr⟩ := List.mem_flatMap.mp hr
  rw [mem_shown hm] at hr
  exact h.strength_of_mem_relationshipsOf (List.mem_filter.mp hr).1

theorem Reachable.exists_run [Scalar α] (h : Reachable g) : ∃ (e : RelationshipGraph α)
    (steps : List (GraphStep α)), e.analyses.entries = [] ∧ g = e.run steps := by
  induction h with
  | @created options now g made => exact ⟨g, [], (forgetful_create made).1, rfl⟩
  | step s _ ih =>
    obtain ⟨e, steps, empty, rfl⟩ := ih
    exact ⟨e, steps ++ [s], empty, (run_concat e steps s).symm⟩

theorem strength_foldl_stamped (late : List Moment) (r : Relationship α) :
    (late.foldl (fun r now => stamped now r) r).strength = r.strength := by
  induction late generalizing r with
  | nil => rfl
  | cons now rest ih => exact ih (stamped now r)

/-- An answer is made from what the graph holds, remembered or not, but for the marks of validations
on the direct edges. -/
theorem Reachable.analyze_eq [Scalar α] (h : Reachable g) (id : String) (now : Moment) :
    ∃ made late, (if g.has id then g.analyzeAnew id made else .ok (.unknown id)) =
      (g.analyze id now).1.map (·.validated late) := by
  obtain ⟨e, steps, empty, rfl⟩ := h.exists_run
  obtain ⟨made, late, -, fresh⟩ := answer_run empty steps id now
  exact ⟨made, late, fresh⟩

theorem Reachable.analyze_unknown [Scalar α] (h : Reachable g) {id : String}
    (other : g.has id = false) (now : Moment) : (g.analyze id now).1 = .ok (.unknown id) := by
  obtain ⟨made, late, fresh⟩ := h.analyze_eq id now
  rw [if_neg (by simp [other])] at fresh
  cases answer : (g.analyze id now).1 with
  | error why =>
    rw [answer] at fresh
    cases fresh
  | ok a =>
    rw [answer] at fresh
    have same : .unknown id = a.validated late := Except.ok.inj fresh
    have none : a.direct = [] :=
      List.map_eq_nil_iff.mp (congrArg RelationshipAnalysis.direct same).symm
    rw [same, RelationshipAnalysis.validated_eq_self_iff.mpr (.inr none)]

theorem Reachable.analyze_known [Scalar α] (h : Reachable g) {id : String} {now : Moment}
    {a : RelationshipAnalysis α} (known : g.has id = true)
    (answer : (g.analyze id now).1 = .ok a) :
    a.score = scoreOf (g.relationshipsOf id true) ∧
      a.direct.map (·.strength) = (g.relationshipsOf id true).map (·.strength) ∧
      ∃ made, g.indirect id none made = .ok a.indirect := by
  obtain ⟨made, late, fresh⟩ := h.analyze_eq id now
  rw [if_pos known, answer] at fresh
  obtain ⟨metrics, -, fresh⟩ := bind_eq_ok.mp fresh
  obtain ⟨indirect, found, fresh⟩ := bind_eq_ok.mp fresh
  have same := Except.ok.inj fresh
  have score := congrArg RelationshipAnalysis.score same
  have direct := congrArg (fun a => a.direct.map (·.strength)) same
  have others := congrArg RelationshipAnalysis.indirect same
  refine ⟨score.symm, ?_, made, ?_⟩
  · simpa [RelationshipAnalysis.validated, RelationshipAnalysis.reworked, Function.comp_def,
      strength_foldl_stamped] using direct.symm
  · rw [mapError_eq_ok.mp found]
    exact congrArg Except.ok others

/-- What the strengths of some edges multiply to. -/
def productOf [Scalar α] (edges : List (Relationship α)) : α :=
  (edges.map (·.strength)).foldl (· * ·) 1

/-- A path that is found, remembered or not, multiplies the first edges along it. -/
theorem Reachable.path_along [Scalar α] (h : Reachable g) {source target : String}
    {hops : Option (Extent Float)} {p : GraphPath α}
    (answer : (g.path source target hops).1 = .ok (some p)) :
    ∃ edges, g.Along p.nodes edges ∧ p.strength = productOf edges := by
  have trivial : ∃ edges, g.Along (GraphPath.trivial source : GraphPath α).nodes edges ∧
      (GraphPath.trivial source : GraphPath α).strength = productOf edges := ⟨[], rfl, rfl⟩
  unfold path at answer
  dsimp only at answer
  split at answer
  · have found := Except.ok.inj answer
    rw [pathWithin_eq (pathsCurrent_reachable h)] at found
    split at found
    · cases found
      exact trivial
    · next differ => exact ((searchPath?_shortest (coherent_reachable h) differ).1 p found).strength
  · unfold pathWithout at answer
    split at answer
    · cases answer
      exact trivial
    · split at answer
      · cases answer
      · dsimp only at answer
        split at answer <;> cases answer

end

variable {g : RelationshipGraph Float}

theorem isShare_indirect {id : String} {depth : Option (Extent Float)} {now : Moment}
    {found : List (Relationship Float)} {r : Relationship Float}
    (answer : g.indirect id depth now = .ok found) (hr : r ∈ found) : IsShare r.strength := by
  obtain ⟨bound, -, answer⟩ := except_bind_eq_ok.mp answer
  obtain ⟨x, -, made⟩ := exists_of_mapM answer hr
  obtain ⟨-, -, -, decay, -, strength⟩ := indirectAlong_eq_ok made
  rw [strength]
  exact clamp_isShare _

/-- Edges in the range stay in it, however they are handed out. -/
theorem HandsOut.isShare (reached : Reachable g) (stored : ∀ r ∈ g.edges, IsShare r.strength)
    {r : Relationship Float} (h : g.HandsOut r) : IsShare r.strength := by
  have coherent := coherent_reachable reached
  have known : (∃ e ∈ g.edges, e.strength = r.strength) → IsShare r.strength := by
    rintro ⟨e, he, same⟩
    exact same ▸ stored e he
  cases h with
  | lookedUp id both hr => exact known (coherent.strength_of_mem_relationshipsOf hr)
  | indirect id depth now answer hr => exact isShare_indirect answer hr
  | exported handed hr =>
    obtain rfl := exported_eq_ok g handed
    exact stored r hr
  | subgraph center depth now hr => exact known (coherent.strength_of_mem_subgraph hr)
  | analyzed id now answer hr =>
    cases stand : g.has id with
    | false =>
      rw [reached.analyze_unknown stand] at answer
      cases answer
      cases hr
    | true =>
      obtain ⟨-, direct, made, indirect⟩ := reached.analyze_known stand answer
      rcases List.mem_append.mp hr with hr | hr
      · have listed : r.strength ∈ (g.relationshipsOf id true).map (·.strength) :=
          direct ▸ List.mem_map_of_mem hr
        obtain ⟨v, hv, same⟩ := List.mem_map.mp listed
        obtain ⟨e, he, turned⟩ := coherent.strength_of_mem_relationshipsOf hv
        exact known ⟨e, he, turned.trans same⟩
      · exact isShare_indirect indirect hr

theorem scoreOf_isShare {direct : List (Relationship Float)}
    (shares : ∀ r ∈ direct, IsShare r.strength) : IsShare (scoreOf direct) := by
  unfold scoreOf
  split
  · exact isShare_zero
  · next filled =>
    have ten : (Scalar.count 10 : Float).isFinite = true := (scalarCount_spec 10).1
    have connectivity : IsShare (Scalar.min (Scalar.count direct.length / Scalar.count 10) 1) :=
      min_one_isShare (div_nonneg (scalarCount_nonneg _) ten (scalarCount_pos (by decide)))
    have mean : IsShare (Scalar.sum (direct.map (·.strength)) / Scalar.count direct.length) := by
      rw [← direct.length_map (·.strength)]
      exact mean_isShare (by simpa using filled) (List.forall_mem_map.mpr shares)
    exact half_isShare connectivity mean

/-- What is multiplied along a path is no greater than any of its edges. -/
theorem Along.isShare {nodes : List String} {edges : List (Relationship Float)}
    (h : g.Along nodes edges) (stored : ∀ r ∈ g.edges, IsShare r.strength) :
    IsShare (productOf edges) ∧ ∀ r ∈ edges, productOf edges ≤ r.strength := by
  have shares : ∀ r ∈ edges, IsShare r.strength := by
    intro r hr
    have found : some r ∈ List.zipWith g.edge? nodes nodes.tail := h ▸ List.mem_map_of_mem hr
    obtain ⟨i, hi, same⟩ := List.mem_iff_getElem.mp found
    rw [List.getElem_zipWith] at same
    exact stored r (List.mem_of_find?_eq_some same)
  obtain ⟨share, -, least⟩ := foldl_mul isShare_one (List.forall_mem_map.mpr shares)
  exact ⟨share, fun r hr => least _ (List.mem_map_of_mem hr)⟩

mutual

/-- The graphs that steps lead to from an empty one with whatever edges can be submitted. -/
inductive Supplied : RelationshipGraph Float → Prop where
  | created {options : GraphOptions Float} {now : Moment} {g : RelationshipGraph Float} :
    create options now = .ok g → Supplied g
  | step {g : RelationshipGraph Float} (s : GraphStep Float) :
    Supplied g → (∀ r ∈ s.brought, Available r) → Supplied (s.apply g)

/-- The edges that can be submitted: those that are read from documents, whatever strengths these
give, and those that such graphs hand out. -/
inductive Available : Relationship Float → Prop where
  | read {now : Moment} {document : Json} {r : Relationship Float} :
    Relationship.decode now document = .ok r → Available r
  | handedOut {g : RelationshipGraph Float} {r : Relationship Float} :
    Supplied g → g.HandsOut r → Available r

end

/-- The edges of a snapshot that was read were read themselves. -/
theorem available_of_snapshot {now : Moment} {document : Json} {s : GraphSnapshot Float}
    (read : GraphSnapshot.decode now document = .ok s) :
    ∀ r ∈ edgesOf s.relationships, Available r := by
  refine Decode.yields_record (P := fun s => ∀ r ∈ edgesOf s.relationships, Available r)
    (fun ms => ?_) document s read
  refine Decoded.yields_seq (Decoded.yields_seq (Decoded.yields_map ?_))
  intro relationships given _ _ _ _ r hr
  obtain ⟨m, hm, hr⟩ := List.mem_flatMap.mp hr
  have listed : ∀ m ∈ relationships, ∀ r ∈ m.2, Available r := Decode.yields_field
    (Decode.yields_mapping (Decode.yields_list fun _ _ => .read)) nofun relationships given
  exact listed m hm r hr

/-- A step keeps the strengths of the edges in the range if those that it brings in are. -/
theorem stored_step (reached : Reachable g) (stored : ∀ r ∈ g.edges, IsShare r.strength)
    {s : GraphStep Float} (brought : ∀ r ∈ s.brought, IsShare r.strength) :
    ∀ r ∈ (s.apply g).edges, IsShare r.strength := by
  intro r hr
  obtain ⟨e, new | old, same⟩ := (coherent_reachable reached).strength_of_mem_step s hr
  · exact same ▸ brought e new
  · exact same ▸ stored e old

theorem Supplied.stored (h : Supplied g) :
    Reachable g ∧ ∀ r ∈ g.edges, IsShare r.strength := by
  refine @Supplied.rec (fun g _ => Reachable g ∧ ∀ r ∈ g.edges, IsShare r.strength)
    (fun r _ => IsShare r.strength) ?created ?step ?read ?handedOut g h
  case created =>
    intro options now g made
    obtain ⟨outgoing, -⟩ := create_eq_ok made
    have none : g.edges = [] := by rw [edges, outgoing]; rfl
    exact ⟨.created made, by simp [none]⟩
  case step =>
    rintro g s - - ⟨reached, stored⟩ brought
    exact ⟨.step s reached, stored_step reached stored brought⟩
  case read =>
    intro now document r read
    exact Relationship.isShare_decode read
  case handedOut =>
    rintro g r - handed ⟨reached, stored⟩
    exact handed.isShare reached stored

/-- The strengths that a graph stores and hands out, and those that it makes of them, are between
zero and one. -/
structure InRange (g : RelationshipGraph Float) : Prop where
  stored : ∀ r ∈ g.edges, IsShare r.strength
  incoming : ∀ id, ∀ r ∈ g.incomingOf id, IsShare r.strength
  handedOut : ∀ r, g.HandsOut r → IsShare r.strength
  path : ∀ source target hops p, (g.path source target hops).1 = .ok (some p) →
    IsShare p.strength ∧ ∃ edges, g.Along p.nodes edges ∧ p.strength = productOf edges ∧
      ∀ r ∈ edges, p.strength ≤ r.strength
  score : ∀ id now a, (g.analyze id now).1 = .ok a → IsShare a.score
  unconnected : ∀ id now a, (g.analyze id now).1 = .ok a →
    (∀ r ∈ g.edges, r.source ≠ id ∧ r.target ≠ id) → a.score = 0
  unknown : ∀ id now, g.has id = false → (g.analyze id now).1 = .ok (.unknown id)

/-- Strengths stay between zero and one. Whatever strengths are submitted and whatever is done with
the graph, the strengths of all edges that it stores and hands out are in the range, a path is in
the range and no stronger than any of the edges that it multiplies, and so are the scores of
analyses, which are zero for an entity without edges. The settings of the graph do not matter. -/
theorem supplied_inRange (h : Supplied g) : InRange g := by
  obtain ⟨reached, stored⟩ := h.stored
  have coherent := coherent_reachable reached
  have scored (id : String) (now : Moment) (a : RelationshipAnalysis Float)
      (answer : (g.analyze id now).1 = .ok a) :
      a.score = 0 ∨ a.score = scoreOf (g.relationshipsOf id true) := by
    cases stand : g.has id with
    | false =>
      rw [reached.analyze_unknown stand] at answer
      cases answer
      exact .inl rfl
    | true => exact .inr (reached.analyze_known stand answer).1
  constructor
  · exact stored
  · intro id r hr
    exact stored r ((mem_incomingOf coherent).mp hr).1
  · exact fun r handed => handed.isShare reached stored
  · intro source target hops p answer
    obtain ⟨edges, along, strength⟩ := reached.path_along answer
    obtain ⟨share, least⟩ := along.isShare stored
    rw [← strength] at share least
    exact ⟨share, edges, along, strength, least⟩
  · intro id now a answer
    rcases scored id now a answer with zero | score
    · rw [zero]
      exact isShare_zero
    · rw [score]
      exact scoreOf_isShare fun r hr =>
        HandsOut.isShare reached stored (.lookedUp id true hr)
  · intro id now a answer apart
    rcases scored id now a answer with zero | score
    · exact zero
    · rw [score, coherent.relationshipsOf_eq_nil apart]
      rfl
  · exact fun id now other => reached.analyze_unknown other now

namespace Sample

/-- The document of an edge with a strength. -/
def edgeDocument (source target : String) (strength : Json) : Json :=
  .obj [("source_id", .str source), ("target_id", .str target), ("type", .str "synergy"),
    ("strength", strength)]

/-- The document of a snapshot whose strengths are no number, too great and too small. -/
def oddDocument : Json :=
  .obj [("relationships", .obj [("a", .arr [edgeDocument "a" "b" (.str "nan")]),
    ("b", .arr [edgeDocument "b" "c" (.str "inf"), edgeDocument "b" "d" (.int (-3))])])]

end Sample

/-- Odd strengths are loaded, an edge of half the strength is added, and what the graph shows around
an entity, its edges turned round as well, takes its place. -/
theorem supplied_inRange_odd : ∃ g, Supplied g ∧ InRange g ∧
    g.edges.map (·.strength) = [1, 0, 1, 0.5, 1, 0.5, 0, 1] ∧
    ((g.path "a" "e" Sample.six).1.toOption.bind id).map (·.strength) = some 0.5 := by
  obtain ⟨e, made⟩ : ∃ g, create Sample.options Sample.noon = .ok g := ⟨_, rfl⟩
  obtain ⟨s, loaded⟩ : ∃ s, GraphSnapshot.decode Sample.noon Sample.oddDocument = .ok s := ⟨_, rfl⟩
  obtain ⟨r, read⟩ : ∃ r, Relationship.decode Sample.noon
      (Sample.edgeDocument "c" "e" (.str "0.5")) = .ok r := ⟨_, rfl⟩
  have odd : Supplied _ := .step (.load s) (.created made) (available_of_snapshot loaded)
  have half : Supplied _ := .step (.add r Sample.noon) odd (by
    intro x hx
    obtain rfl := List.mem_singleton.mp hx
    exact .read read)
  have shown : Supplied _ := .step (.load (subgraph _ "b" 2 Sample.noon)) half
    fun x hx => .handedOut half (.subgraph "b" 2 Sample.noon hx)
  refine ⟨_, shown, supplied_inRange shown, ?_⟩
  cases made
  cases loaded
  cases read
  decide +kernel

end RelationshipGraph

end EntityRules
