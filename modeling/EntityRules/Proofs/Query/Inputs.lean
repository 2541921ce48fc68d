import EntityRules.Proofs.Evaluation.Called
import EntityRules.Proofs.Graph.Unmarked
import EntityRules.Proofs.Query.Stages

/-! What the answer to a query depends on: records, edges up to marks, and registered functions. -/

namespace EntityRules.QueryRules

open RelationshipGraph (SameEdges)

variable {rules : QueryRules} {clock : Int} {catalog catalog' : EntityCatalog}
  {graph graph' : RelationshipGraph Float} {filter : QueryFilter} {state : GameState}
  {options : QueryOptions} {ev ev' : Evaluator}

/-- Only dramatic timing looks at the clock. -/
theorem factorHolds_clock {factor : ContextFactor} (h : factor ≠ .dramaticTiming) (clock' : Int)
    (e : EntityRecord Float) :
    rules.factorHolds clock' state e factor = rules.factorHolds clock state e factor := by
  cases factor with
  | dramaticTiming => exact absurd rfl h
  | storyAppropriate => rfl
  | playerReady => rfl
  | resourceAvailable => rfl

theorem factorsHold_clock {names : List String}
    (h : Vocabulary.name ContextFactor.dramaticTiming ∉ names) (clock' : Int)
    (e : EntityRecord Float) :
    rules.factorsHold clock' state e names = rules.factorsHold clock state e names := by
  induction names with
  | nil => rfl
  | cons name rest ih =>
    rw [List.mem_cons, not_or] at h
    rw [factorsHold, factorsHold, ih h.2]
    cases known : (Vocabulary.ofName? name : Option ContextFactor) with
    | none => rfl
    | some factor =>
      have other : factor ≠ .dramaticTiming := by
        rintro rfl
        exact h.1 (Vocabulary.name_of_ofName? known)
      dsimp only
      rw [factorHolds_clock other]

theorem keepFitting_clock {names : List String}
    (h : Vocabulary.name ContextFactor.dramaticTiming ∉ names) (clock' : Int)
    (es : List (EntityRecord Float)) :
    rules.keepFitting clock' state names es = rules.keepFitting clock state names es := by
  induction es with
  | nil => rfl
  | cons e rest ih => rw [keepFitting, keepFitting, factorsHold_clock h, ih]

theorem get?_congr (same : catalog'.records = catalog.records) : catalog'.get? = catalog.get? := by
  funext id
  rw [EntityCatalog.get?, EntityCatalog.get?, same]

theorem ofKind_congr (same : catalog'.records = catalog.records) :
    catalog'.ofKind = catalog.ofKind := by
  funext kind
  unfold EntityCatalog.ofKind
  rw [same]

theorem discover_congr (same : catalog'.records = catalog.records)
    (relevant : Relationship Float → Except ExtentTrouble Bool) (seen : List String)
    (edges : List (Relationship Float)) :
    discover catalog' relevant seen edges = discover catalog relevant seen edges := by
  induction edges generalizing seen with
  | nil => rfl
  | cons r rest ih => rw [discover, discover, ih, ih, get?_congr same]

/-- The marks of validations do not matter for what relationships lead to. -/
theorem discover_unmarked (seen : List String) (edges : List (Relationship Float)) :
    discover catalog (rules.isRelevant state) seen (edges.map Relationship.unmarked) =
      discover catalog (rules.isRelevant state) seen edges := by
  induction edges generalizing seen with
  | nil => rfl
  | cons r rest ih =>
    have target : r.unmarked.target = r.target := rfl
    have relevant : rules.isRelevant state r.unmarked = rules.isRelevant state r := rfl
    rw [List.map_cons, discover, discover, target, relevant, ih, ih]

theorem related_congr (records : catalog'.records = catalog.records) (edges : SameEdges graph graph')
    (found : List (EntityRecord Float)) :
    rules.related catalog' graph' filter state found =
      rules.related catalog graph filter state found := by
  have unmarked : ∀ g : RelationshipGraph Float,
      (found.flatMap fun e => g.outgoingOf e.id).map Relationship.unmarked =
        found.flatMap fun e =>
          (Members.get? (RelationshipGraph.unmarked g.outgoing) e.id).getD [] := by
    intro g
    rw [List.map_flatMap]
    simp only [RelationshipGraph.map_unmarked_outgoingOf]
  unfold related
  rw [discover_congr records, ← discover_unmarked, unmarked, edges.outgoing, ← unmarked,
    discover_unmarked]

theorem joined_congr (records : catalog'.records = catalog.records) (edges : SameEdges graph graph')
    (found : List (EntityRecord Float)) :
    rules.joined catalog' graph' filter state options found =
      rules.joined catalog graph filter state options found := by
  unfold joined
  rw [related_congr records edges]

/-- Conditions hold for the same records as long as the functions that they call are the same. -/
theorem keepHolding_congr (functions : ∀ c ∈ filter.conditions.getD [], ∀ name, c.Calls name →
      Members.get? ev'.functions name = Members.get? ev.functions name)
    (steady : ∀ c ∈ filter.conditions.getD [], c.IsSteady ev.functions)
    (es : List (EntityRecord Float)) :
    (keepHolding state (filter.conditions.getD []) es ev').1 =
      (keepHolding state (filter.conditions.getD []) es ev).1 := by
  rw [keepHolding_eq steady, keepHolding_eq fun c hc => (steady c hc).congr (functions c hc)]
  apply List.filter_congr
  intro e _
  rw [decide_eq_decide]
  constructor
  · exact fun holds c hc => (Condition.holds_congr (functions c hc)).mp (holds c hc)
  · exact fun holds c hc => (Condition.holds_congr (functions c hc)).mpr (holds c hc)

/-- The answer stays the same as long as the records, the edges and the functions that are called
do. -/
theorem answer_congr (records : catalog'.records = catalog.records)
    (edges : SameEdges graph graph')
    (functions : ∀ c ∈ filter.conditions.getD [], ∀ name, c.Calls name →
      Members.get? ev'.functions name = Members.get? ev.functions name)
    (steady : ∀ c ∈ filter.conditions.getD [], c.IsSteady ev.functions)
    (timeless : Vocabulary.name ContextFactor.dramaticTiming ∉ filter.contextFactors.getD [])
    (clock' : Int) (fetched : List (EntityRecord Float)) :
    (rules.answer clock' catalog' graph' filter state options fetched ev').1 =
      (rules.answer clock catalog graph filter state options fetched ev).1 := by
  have same := @keepHolding_congr filter state ev ev' functions steady
    (fetched.filter (passesFilters filter))
  have fitting := @keepFitting_clock rules clock state _ timeless clock'
  unfold answer
  dsimp only
  rw [same, fitting]
  cases rules.keepFitting clock state (filter.contextFactors.getD []) _ with
  | error why => rfl
  | ok es =>
    dsimp only
    rw [joined_congr records edges]
    cases rules.joined catalog graph filter state options _ <;> rfl

theorem functions_keepHolding (conditions : List Condition) (es : List (EntityRecord Float))
    (ev : Evaluator) : (keepHolding state conditions es ev).2.functions = ev.functions := by
  induction es generalizing ev with
  | nil => rfl
  | cons e rest ih =>
    rw [keepHolding]
    dsimp only
    rw [ih, functions_holdAll]

/-- Answering a query changes no function. -/
theorem functions_answer (fetched : List (EntityRecord Float)) :
    (rules.answer clock catalog graph filter state options fetched ev).2.functions =
      ev.functions := by
  have same := @functions_keepHolding state (filter.conditions.getD [])
    (fetched.filter (passesFilters filter)) ev
  unfold answer
  dsimp only
  split
  · exact same
  · split
    · exact same
    · exact same

/-- A new answer says that it is new. -/
theorem cacheHit_answer {fetched : List (EntityRecord Float)} {r : QueryResult}
    (h : (rules.answer clock catalog graph filter state options fetched ev).1 = .ok r) :
    r.cacheHit = false := by
  unfold answer at h
  dsimp only at h
  split at h
  · cases h
  · split at h
    · cases h
    · obtain ⟨scored, limit, -, -, rfl⟩ := rank_eq_ok h
      rfl

/-- Another order is only another order, unless results were cut off. -/
theorem rank_reordered {es : List (EntityRecord Float)} {r : QueryResult}
    (h : rules.rank filter state options es = .ok r) (all : r.entities.length = r.total)
    (name : String) : ∃ r', rules.rank filter state { options with sortBy := name } es = .ok r' ∧
      r'.entities.Perm r.entities := by
  obtain ⟨scored, limit, hs, hl, rfl⟩ := rank_eq_ok h
  obtain ⟨r', ranked⟩ :
      ∃ r', rules.rank filter state { options with sortBy := name } es = .ok r' := by
    rw [rank, hs]
    exact ⟨_, map_eq_ok.mpr ⟨limit, hl, rfl⟩⟩
  refine ⟨r', ranked, ?_⟩
  obtain ⟨scored', limit', hs', hl', rfl⟩ := rank_eq_ok ranked
  obtain rfl : scored' = scored := Except.ok.inj (hs'.symm.trans hs)
  obtain rfl : limit' = limit := Except.ok.inj (hl'.symm.trans hl)
  dsimp only at all ⊢
  generalize scored'.filter (fun x => inScoreRange filter x.2) = ranged at all ⊢
  have whole : ∀ order, (sortBy order ranged).take limit' = sortBy order ranged := by
    intro order
    have here := (sortBy_perm order ranged).length_eq
    have there := (sortBy_perm options.sortBy ranged).length_eq
    rw [List.length_map, List.length_take] at all
    exact List.take_of_length_le (by omega)
  rw [whole, whole]
  exact ((sortBy_perm name ranged).trans (sortBy_perm options.sortBy ranged).symm).map _

theorem answer_reordered {fetched : List (EntityRecord Float)} {r : QueryResult}
    (h : (rules.answer clock catalog graph filter state options fetched ev).1 = .ok r)
    (all : r.entities.length = r.total) (name : String) :
    ∃ r', (rules.answer clock catalog graph filter state { options with sortBy := name } fetched
        ev).1 = .ok r' ∧ r'.entities.Perm r.entities := by
  unfold answer at h ⊢
  dsimp only at h ⊢
  split at h
  · cases h
  · next kept fitting =>
    split at h
    · cases h
    · next es joining =>
      replace joining : rules.joined catalog graph filter state { options with sortBy := name }
          (kept.filter (passesBounds filter)) = .ok es := joining
      rw [joining]
      exact rank_reordered h all name

end EntityRules.QueryRules
