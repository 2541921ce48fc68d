import EntityRules.Proofs.Entity.Catalog
import EntityRules.Proofs.Evaluation.Steady
import EntityRules.Proofs.Query.Ranking

/-! What a query asks for, said without the order in which it is found out. -/

namespace EntityRules.QueryRules

variable (rules : QueryRules) (clock : Int) (functions : FunctionTable) (catalog : EntityCatalog)
  (graph : RelationshipGraph Float) (filter : QueryFilter) (state : GameState)
  (options : QueryOptions)

/-- A record within everything that a filter asks for. -/
structure Eligible (e : EntityRecord Float) : Prop where
  included : e.id ∉ filter.excludeIds.getD []
  tagged : ∀ wanted ∈ filter.tags, wanted ≠ [] → ∃ tag ∈ wanted, tag ∈ e.tags
  least : ∀ range ∈ filter.priority, ∀ low ∈ range.min, ¬ e.priority < low
  greatest : ∀ range ∈ filter.priority, ∀ high ∈ range.max, ¬ high < e.priority
  located : ∀ wanted ∈ filter.location, ∀ place ∈ e.location,
    wanted ≠ "" → place ≠ "" → place = wanted
  starts : ∀ window ∈ filter.timeConstraints, ∀ start ∈ window.startTime,
    ∀ first ∈ e.availableFrom, start.instant ≤ first.instant
  ends : ∀ window ∈ filter.timeConstraints, ∀ finish ∈ window.endTime,
    ∀ last ∈ e.availableUntil, last.instant ≤ finish.instant
  conditions : ∀ c ∈ filter.conditions.getD [], c.Holds functions (contextOf state e)
  /-- Names that are no factors ask for nothing. -/
  factors : ∀ name ∈ filter.contextFactors.getD [], ∀ factor,
    Vocabulary.ofName? name = some factor → rules.factorHolds clock state e factor = .ok true
  aligned : ∀ bounds ∈ filter.softBounds, ∀ bound ∈ bounds.playerAlignment,
    ∀ x ∈ e.playerAlignment, ¬ x < bound.min
  relevant : ∀ bounds ∈ filter.softBounds, ∀ bound ∈ bounds.storyRelevance,
    ∀ x ∈ e.storyRelevance, ¬ x < bound.min
  difficulty : ∀ bounds ∈ filter.softBounds, ∀ bound ∈ bounds.difficultyMatch,
    ∀ x ∈ e.difficulty, ¬ bound.tolerance < (x - bound.target).abs

/-- The records of the kinds that are asked for, one kind after another and each kind once; all
records when no kind is. -/
def requested : List (EntityRecord Float) :=
  match filter.entityTypes with
  | none | some [] => catalog.all
  | some kinds => kinds.eraseDups.flatMap fun k => catalog.all.filter (·.kind = k)

open Classical in
/-- The requested records that are eligible. -/
noncomputable def chosen : List (EntityRecord Float) :=
  (requested catalog filter).filter fun e => Eligible rules clock functions filter state e

/-- A relationship that brings in its target. -/
structure Brings (r : Relationship Float) : Prop where
  /-- The least strength is not above that of the relationship. -/
  strong : rules.relatedMinStrength.isAbove r.strength = .ok false
  fits : ∀ tag ∈ r.metadata.context, tag ≠ "" → tag ∈ state.contextTags

open Classical in
/-- The known records that relationships bring in, each once, unless they stand among those listed
or are excluded. -/
noncomputable def broughtBy (listed : List (EntityRecord Float)) : List (EntityRecord Float) :=
  let edges := listed.flatMap fun e => graph.outgoingOf e.id
  let bringing := edges.filter fun r =>
    Brings rules state r ∧ r.target ∉ listed.map (·.id) ∧
      r.target ∉ filter.excludeIds.getD [] ∧ (catalog.get? r.target).isSome
  (bringing.map (·.target)).eraseDups.filterMap catalog.get?

/-- Everything that a query finds. -/
noncomputable def found : List (EntityRecord Float) :=
  let listed := chosen rules clock functions catalog filter state
  listed ++ if options.includeRelated then broughtBy rules catalog graph filter state listed else []

/-- The score of a record; scores of what a query finds are known when it is answered. -/
def scoreOf (e : EntityRecord Float) : Float :=
  ((rules.scoring.score filter state e).toOption).getD 0

/-- A score within the range that is asked for. -/
def WithinRange (score : Float) : Prop :=
  ∀ bounds ∈ filter.softBounds, ∀ range ∈ bounds.recommendationScore,
    range.min ≤ score ∧ score ≤ range.max

open Classical in
/-- What a query finds, with its scores, as far as they are within the range. -/
noncomputable def ranked : List Scored :=
  ((found rules clock functions catalog graph filter state options).map
    fun e => (e, scoreOf rules filter state e)).filter fun x => WithinRange filter x.2

/-- An arrangement of a list by the strategy of a name; a name that is no strategy keeps the list.
-/
def Arranged (name : String) (xs ys : List Scored) : Prop :=
  match (Vocabulary.ofName? name : Option SortStrategy) with
  | some strategy => StablyDescends strategy.key xs ys
  | none => ys = xs

/-- An answer to a query. -/
structure Answers (r : QueryResult) : Prop where
  scored : ∀ e ∈ found rules clock functions catalog graph filter state options,
    rules.scoring.score filter state e = .ok (scoreOf rules filter state e)
  /-- No record is found twice. -/
  distinct : ((found rules clock functions catalog graph filter state options).map (·.id)).Nodup
  total : r.total = (ranked rules clock functions catalog graph filter state options).length
  /-- The list holds the first of the arranged records, as many as are wanted, and their scores. -/
  cut : ∃ arranged limit,
    Arranged options.sortBy (ranked rules clock functions catalog graph filter state options)
      arranged ∧ rules.limit options = .ok limit ∧
    r.entities = (arranged.take limit).map (·.1) ∧ r.scores = (arranged.take limit).map (·.2)
  filtersApplied : r.filtersApplied = filter.applied
  sortedBy : r.sortedBy = options.sortBy
  contextFactors : r.contextFactors = contextNames state
  cacheHit : r.cacheHit = false

end EntityRules.QueryRules
