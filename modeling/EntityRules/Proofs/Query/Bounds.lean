import EntityRules.Proofs.Json.Faithful
import EntityRules.Proofs.Query.Inputs

/-! What the soft bounds of a query make sure of. -/

namespace EntityRules.QueryRules

section

variable (rules : QueryRules) (catalog : EntityCatalog) (graph : RelationshipGraph Float)
  (filter : QueryFilter) (state : GameState)

/-- A record of a kind that is asked for, with its numbers within the soft bounds. -/
structure Candidate (x : EntityRecord Float) : Prop where
  requested : ∃ kind ∈ requests filter, x ∈ catalog.ofKind kind
  bounded : passesBounds filter x = true

/-- A record to which a relationship of a candidate leads, one that matters for the state. -/
def Related (x : EntityRecord Float) : Prop :=
  ∃ y r, Candidate catalog filter y ∧ r ∈ graph.outgoingOf y.id ∧ Brings rules state r ∧
    catalog.get? r.target = some x

/-- A record that may be listed with a score. -/
structure Listed (x : Scored) : Prop where
  scored : rules.scoring.score filter state x.1 = .ok x.2
  inRange : WithinRange filter x.2
  origin : Candidate catalog filter x.1 ∨ Related rules catalog graph filter state x.1

/-- A result that lists a score for every record. -/
structure Lists (r : QueryResult) : Prop where
  paired : r.scores.length = r.entities.length
  listed : ∀ x ∈ r.entities.zip r.scores, Listed rules catalog graph filter state x

end

variable {rules : QueryRules} {clock : Int} {catalog catalog' : EntityCatalog}
  {graph graph' : RelationshipGraph Float} {filter : QueryFilter} {state : GameState}
  {options : QueryOptions} {ev : Evaluator} {es : List (EntityRecord Float)}

theorem mem_keepHolding {cs : List Condition} {e : EntityRecord Float}
    (h : e ∈ (keepHolding state cs es ev).1) : e ∈ es := by
  induction es generalizing ev with
  | nil => cases h
  | cons x rest ih =>
    rw [keepHolding] at h
    dsimp only at h
    split at h
    · rcases List.mem_cons.mp h with rfl | h
      · exact List.mem_cons_self
      · exact List.mem_cons_of_mem _ (ih h)
    · exact List.mem_cons_of_mem _ (ih h)

open Classical Members in
/-- What joins a list is related to a record of the list. -/
theorem mem_joined {listed : List (EntityRecord Float)} {e : EntityRecord Float}
    (h : rules.joined catalog graph filter state options listed = .ok es) (he : e ∈ es) :
    e ∈ listed ∨ ∃ y ∈ listed, ∃ r ∈ graph.outgoingOf y.id, Brings rules state r ∧
      catalog.get? r.target = some e := by
  rw [joined_eq_ok h] at he
  rcases List.mem_append.mp he with he | he
  · exact .inl he
  · split at he
    · obtain ⟨target, ht, found⟩ := List.mem_filterMap.mp he
      obtain ⟨r, hr, rfl⟩ := List.mem_map.mp (List.mem_eraseDups.mp ht)
      obtain ⟨edge, brings⟩ := List.mem_filter.mp hr
      obtain ⟨y, hy, edge⟩ := List.mem_flatMap.mp edge
      rw [decide_eq_true_eq] at brings
      exact .inr ⟨y, hy, r, edge, brings.1, found⟩
    · cases he

theorem mem_distinct {seen : List String} {e : EntityRecord Float} (h : e ∈ distinct seen es) :
    e ∈ es := by
  induction es generalizing seen with
  | nil => cases h
  | cons x rest ih =>
    rw [distinct] at h
    split at h
    · exact List.mem_cons_of_mem _ (ih h)
    · rcases List.mem_cons.mp h with rfl | h
      · exact List.mem_cons_self
      · exact List.mem_cons_of_mem _ (ih h)

/-- Ranking pairs records that were found with their scores, and all scores are in the range. -/
theorem mem_rank {r : QueryResult} (h : rules.rank filter state options es = .ok r) :
    r.scores.length = r.entities.length ∧
      ∀ p ∈ r.entities.zip r.scores, p.1 ∈ es ∧ rules.scoring.score filter state p.1 = .ok p.2 ∧
        WithinRange filter p.2 := by
  obtain ⟨scored, limit, hs, -, rfl⟩ := rank_eq_ok h
  obtain ⟨known, rfl⟩ := scoreAll_eq_ok hs
  refine ⟨by simp, ?_⟩
  intro p hp
  dsimp only at hp
  rw [List.zip_map', List.map_id'' fun _ => rfl] at hp
  have hm := (sortBy_perm _ _).mem_iff.mp (List.mem_of_mem_take hp)
  obtain ⟨hm, range⟩ := List.mem_filter.mp hm
  obtain ⟨e, he, rfl⟩ := List.mem_map.mp hm
  exact ⟨he, known e he, inScoreRange_iff.mp range⟩

/-- What a query lists keeps to its bounds, or is related to what does. -/
theorem lists_answer {fetched : List (EntityRecord Float)} {r : QueryResult}
    (requested : ∀ e ∈ fetched, ∃ kind ∈ requests filter, e ∈ catalog.ofKind kind)
    (h : (rules.answer clock catalog graph filter state options fetched ev).1 = .ok r) :
    Lists rules catalog graph filter state r := by
  unfold answer at h
  dsimp only at h
  split at h
  · cases h
  · next kept fitting =>
    split at h
    · cases h
    · next es joining =>
      obtain ⟨paired, ranked⟩ := mem_rank h
      have candidate : ∀ e ∈ kept.filter (passesBounds filter), Candidate catalog filter e := by
        intro e he
        obtain ⟨he, bounded⟩ := List.mem_filter.mp he
        rw [keepFitting_eq_ok fitting] at he
        have hf := mem_keepHolding (List.mem_of_mem_filter he)
        exact ⟨requested e (List.mem_of_mem_filter hf), bounded⟩
      refine ⟨paired, ?_⟩
      intro x hx
      obtain ⟨found, scored, range⟩ := ranked x hx
      refine ⟨scored, range, ?_⟩
      rcases mem_joined joining found with own | ⟨y, hy, edge, he, brings, target⟩
      · exact .inl (candidate x.1 own)
      · exact .inr ⟨y, edge, candidate y hy, he, brings, target⟩

/-- The marks of validations do not matter for what a relationship brings in. -/
theorem brings_unmarked {r : Relationship Float} :
    Brings rules state r.unmarked ↔ Brings rules state r :=
  ⟨fun h => ⟨h.strong, h.fits⟩, fun h => ⟨h.strong, h.fits⟩⟩

/-- A related record is still related when records and edges are the same up to marks. -/
theorem Lists.congr {r : QueryResult} (h : Lists rules catalog graph filter state r)
    (records : catalog'.records = catalog.records)
    (edges : RelationshipGraph.SameEdges graph graph') :
    Lists rules catalog' graph' filter state r := by
  have candidate : ∀ y, Candidate catalog filter y → Candidate catalog' filter y := by
    rintro y ⟨requested, bounded⟩
    exact ⟨ofKind_congr records ▸ requested, bounded⟩
  refine ⟨h.paired, ?_⟩
  intro x hx
  obtain ⟨scored, range, origin⟩ := h.listed x hx
  refine ⟨scored, range, ?_⟩
  rcases origin with own | ⟨y, edge, hy, he, brings, target⟩
  · exact .inl (candidate x.1 own)
  · have same : edge.unmarked ∈ (graph'.outgoingOf y.id).map Relationship.unmarked := by
      rw [RelationshipGraph.map_unmarked_outgoingOf, edges.outgoing,
        ← RelationshipGraph.map_unmarked_outgoingOf]
      exact List.mem_map_of_mem he
    obtain ⟨edge', he', unmarked⟩ := List.mem_map.mp same
    have target' : edge'.unmarked.target = edge.unmarked.target := by rw [unmarked]
    have brings' : Brings rules state edge'.unmarked := unmarked ▸ brings_unmarked.mpr brings
    refine .inr ⟨y, edge', candidate y hy, he', brings_unmarked.mp brings', ?_⟩
    rw [get?_congr records, show edge'.target = edge.target from target']
    exact target

/-- A score looks at few parts of a request. -/
theorem score_alike {scoring : ScoringRules Float} {filter' : QueryFilter} {state' : GameState}
    (tags : filter.tags = filter'.tags) (location : filter.location = filter'.location)
    (level : state.player.level = state'.player.level)
    (story : state.story.isSome = state'.story.isSome) (x : EntityRecord Float) :
    scoring.score filter' state' x = scoring.score filter state x := by
  have factor : ScoringRules.storyFactor x.storyRelevance state'.story =
      ScoringRules.storyFactor x.storyRelevance state.story := by
    unfold ScoringRules.storyFactor
    cases h : state.story <;> cases h' : state'.story <;> cases x.storyRelevance <;> simp_all
  unfold ScoringRules.score
  rw [tags, location, level, factor]

/-- A result for one of two requests that are written alike is one for the other. -/
theorem Lists.alike {filter' : QueryFilter} {state' : GameState} {r : QueryResult}
    (h : Lists rules catalog graph filter state r)
    (sameFilter : filter.encode.arranged = filter'.encode.arranged)
    (sameState : state.encode.arranged = state'.encode.arranged) :
    Lists rules catalog graph filter' state' r := by
  obtain ⟨kinds, tags, -, -, location, -, -, -, bounds⟩ := QueryFilter.alike sameFilter
  have arranged := GameState.arranged_eq sameState
  have level : state.player.level = state'.player.level := congrArg (·.player.level) arranged
  have story : state.story.isSome = state'.story.isSome := congrArg (·.story.isSome) arranged
  have context : state.contextTags = state'.contextTags := congrArg (·.contextTags) arranged
  have candidate : ∀ y, Candidate catalog filter y → Candidate catalog filter' y := by
    rintro y ⟨requested, bounded⟩
    refine ⟨?_, ?_⟩
    · rwa [requests, ← kinds]
    · rwa [passesBounds, ← bounds]
  refine ⟨h.paired, ?_⟩
  intro x hx
  obtain ⟨scored, range, origin⟩ := h.listed x hx
  refine ⟨?_, ?_, ?_⟩
  · rw [score_alike tags location level story]
    exact scored
  · rwa [WithinRange, ← bounds]
  · rcases origin with own | ⟨y, edge, hy, he, brings, target⟩
    · exact .inl (candidate x.1 own)
    · exact .inr ⟨y, edge, candidate y hy, he, ⟨brings.strong, context ▸ brings.fits⟩, target⟩

end EntityRules.QueryRules
