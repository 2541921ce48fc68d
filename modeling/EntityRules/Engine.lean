import EntityRules.Graph.Analysis
import EntityRules.Query.Fingerprint
import EntityRules.Query.Pipeline
import EntityRules.Settings.Options
import EntityRules.Text.Sha256

/-! The engine: an evaluator, a catalog, a graph of relationships, and a cache of results. -/

namespace EntityRules

/-- How an engine answers queries and what it recommends. -/
structure EngineRules where
  query : QueryRules
  cacheEnabled : Bool
  recommendedScore : Float × Float
  recommendedAlignment : Float
  recommendedResults : Int
  /-- How many entities may be processed at the same time. -/
  workers : Extent Float
  /-- How the texts of queries are digested. -/
  digest : String → String := Text.Sha256.hexDigest
  /-- How many levels the text of a query may have inside each other. -/
  room : Nat := 900

structure RuleEngine where
  rules : EngineRules
  evaluator : Evaluator
  catalog : EntityCatalog
  graph : RelationshipGraph Float
  results : ResultCache Fingerprint QueryResult Float
  queries : Nat := 0
  failures : Nat := 0
  /-- The time that remembered results grow old by, in seconds. -/
  time : Float := 0
  /-- The instant at which queries are answered, in microseconds from 1970-01-01T00:00Z. -/
  clock : Int

structure QueryStatistics where
  queries : Nat
  failures : Nat
  cache : CacheMetrics Float

/-- How an engine works under options, with room for some workers; what it recommends comes from the
settings. -/
def EngineOptions.rules (o : EngineOptions) (s : EngineSettings) (workers : Extent Float) :
    EngineRules :=
  { query := {
      scoring := o.scoring
      maxResults := o.maxResults
      relatedMinStrength := o.relatedMinStrength
      dramaticInterval := o.dramaticInterval }
    cacheEnabled := o.cacheEnabled
    recommendedScore := s.recommendedScore
    recommendedAlignment := s.recommendedAlignment
    recommendedResults := s.recommendedResults
    workers }

namespace RuleEngine

/-- An engine under options. Its cache needs some capacity, and there is one worker at least. -/
def create (settings : EngineSettings) (options : EngineOptions) (evaluator : Evaluator)
    (catalog : EntityCatalog) (graph : RelationshipGraph Float) (clock : Int) :
    Except OptionTrouble RuleEngine := do
  let results ←
    (ResultCache.create "query_results" options.cacheCapacity options.cacheTtl).mapError .capacity
  let workers ← (options.workers.atLeastOne).mapError .extent
  return { rules := options.rules settings workers, evaluator, catalog, graph, results, clock }

def forgetResults (e : RuleEngine) : RuleEngine := { e with results := e.results.clear }

/-- Takes over a graph. Results are forgotten when it has changed. -/
def withGraph (e : RuleEngine) (graph : RelationshipGraph Float) : RuleEngine :=
  let changed := { e with graph }
  if graph.revision = e.graph.revision then changed else changed.forgetResults

/-- Takes over a catalog. Results are forgotten when it has changed. -/
def withCatalog (e : RuleEngine) (catalog : EntityCatalog) : RuleEngine :=
  let changed := { e with catalog }
  if catalog.revision = e.catalog.revision then changed else changed.forgetResults

def addRecord (e : RuleEngine) (record : EntityRecord Float) : RuleEngine :=
  e.withCatalog (e.catalog.add record)

def removeRecord (e : RuleEngine) (id : String) : Bool × RuleEngine :=
  let (found, catalog) := e.catalog.remove id
  (found, e.withCatalog catalog)

/-- Forgets results, analyses and paths. -/
def clearCaches (e : RuleEngine) : RuleEngine :=
  e.forgetResults.withGraph e.graph.clearCaches

/-- Lets time pass for remembered results. -/
def advance (e : RuleEngine) (seconds : Float) : RuleEngine := { e with time := e.time + seconds }

/-- Whether the result of a query can be remembered: it depends neither on the time of day nor on
random numbers. -/
def isCacheable (e : RuleEngine) (filter : QueryFilter) (options : QueryOptions) : Bool :=
  e.rules.cacheEnabled && options.useCache &&
    !((filter.contextFactors.getD []).contains (Vocabulary.name ContextFactor.dramaticTiming)) &&
    Condition.isDeterministic (filter.conditions.getD [])

/-- Fetches the records of a kind, or all. What comes to light on the way is added to the graph. -/
def fetchKind (e : RuleEngine) (kind : Option EntityKind) (now : Moment) :
    Except PipelineTrouble (List (EntityRecord Float)) × RuleEngine :=
  match e.catalog.failure with
  | some message => (.error (.catalog message), e)
  | none =>
    let records := e.catalog.ofKind kind
    match e.catalog.discoveries with
    | [] => (.ok records, e)
    | found :: rest =>
      let e := { e with catalog := { e.catalog with discoveries := rest } }
      (.ok records, e.withGraph (e.graph.add found now))

/-- Fetches the records of kinds, one kind after another. -/
def fetchKinds (now : Moment) :
    List (Option EntityKind) → RuleEngine →
      Except PipelineTrouble (List (EntityRecord Float)) × RuleEngine
  | [], e => (.ok [], e)
  | kind :: rest, e =>
    match e.fetchKind kind now with
    | (.error why, e) => (.error why, e)
    | (.ok first, e) =>
      let (others, e) := fetchKinds now rest e
      (others.map (first ++ ·), e)

/-- Fetches the candidates of a query, each once. -/
def fetch (e : RuleEngine) (filter : QueryFilter) (now : Moment) :
    Except PipelineTrouble (List (EntityRecord Float)) × RuleEngine :=
  let (fetched, e) := fetchKinds now (QueryRules.requests filter) e
  (fetched.map (QueryRules.distinct []), e)

/-- Answers a query anew. -/
def runPipeline (e : RuleEngine) (filter : QueryFilter) (state : GameState)
    (options : QueryOptions) (now : Moment) : Except PipelineTrouble QueryResult × RuleEngine :=
  match e.fetch filter now with
  | (.error why, e) => (.error why, e)
  | (.ok fetched, e) =>
    let (answer, evaluator) :=
      e.rules.query.answer e.clock e.catalog e.graph filter state options fetched e.evaluator
    (answer, { e with evaluator })

/-- Whether the catalog and the graph have not changed. -/
def sameSources (before after : RuleEngine) : Bool :=
  before.graph.revision = after.graph.revision &&
    before.catalog.revision = after.catalog.revision

/-- Answers a query anew and counts a failure. -/
def queryAnew (e : RuleEngine) (filter : QueryFilter) (state : GameState) (options : QueryOptions)
    (now : Moment) : Except QueryFailure QueryResult × RuleEngine :=
  match e.runPipeline filter state options now with
  | (.error why, e) =>
    (.error (.reported (.pipeline why filter options)), { e with failures := e.failures + 1 })
  | (.ok result, e) => (.ok result, e)

/-- Remembers a result; without a lifetime the query fails after all. -/
def remember (e : RuleEngine) (key : Fingerprint) (result : QueryResult) :
    Except QueryFailure QueryResult × RuleEngine :=
  match e.results.set key result e.time with
  | .error why => (.error (.lifetime why), e)
  | .ok results => (.ok result, { e with results })

/-- Answers a query with a remembered result if there is one. A new result is remembered unless its
sources changed on the way. -/
def queryRemembered (e : RuleEngine) (key : Fingerprint) (filter : QueryFilter) (state : GameState)
    (options : QueryOptions) (now : Moment) : Except QueryFailure QueryResult × RuleEngine :=
  match e.results.get key e.time with
  | (some found, results) => (.ok { found with cacheHit := true }, { e with results })
  | (none, results) =>
    let before := { e with results }
    match before.queryAnew filter state options now with
    | (.error why, after) => (.error why, after)
    | (.ok result, after) =>
      if before.sameSources after then after.remember key result else (.ok result, after)

/-- Answers a query. One that can be remembered needs a fingerprint. -/
def query (e : RuleEngine) (filter : QueryFilter) (state : GameState) (options : QueryOptions)
    (now : Moment) : Except QueryFailure QueryResult × RuleEngine :=
  let e := { e with queries := e.queries + 1 }
  if e.isCacheable filter options then
    match Fingerprint.build e.rules.digest e.rules.room filter state options with
    | .error why => (.error (.unwritable why), e)
    | .ok key => e.queryRemembered key filter state options now
  else e.queryAnew filter state options now

/-- Reads the filter and the options of a query; options that are absent or null are the standard
ones. -/
def readRequest (filter : Json) (options : Json) : Decoded (QueryFilter × QueryOptions) :=
  (QueryFilter.decode filter).andThen fun filter =>
    match options with
    | .null => .ok (filter, {})
    | options => (filter, ·) <$> QueryOptions.decode options

/-- Answers a query that is given by documents. -/
def queryDocuments (e : RuleEngine) (filter state options : Json) (now : Moment) :
    Except QueryFailure QueryResult × RuleEngine :=
  match GameState.decode state with
  | .refused why => (.error (.reported (.invalidState why)), e)
  | .ok state =>
    match readRequest filter options with
    | .refused why =>
      (.error (.reported (.invalidRequest why)),
        { e with queries := e.queries + 1, failures := e.failures + 1 })
    | .ok (filter, options) => e.query filter state options now

/-- What is asked for to recommend entities of a kind. -/
def recommendation (rules : EngineRules) (kind : EntityKind) : QueryFilter :=
  { entityTypes := some [kind]
    softBounds := some {
      recommendationScore :=
        some { min := rules.recommendedScore.1, max := rules.recommendedScore.2 }
      playerAlignment := some { min := rules.recommendedAlignment } } }

/-- The options under which entities are recommended. -/
def recommendationOptions (rules : EngineRules) (maxResults : Option Int) : QueryOptions :=
  { maxResults := some (maxResults.getD rules.recommendedResults), includeRelated := true }

/-- Recommends entities of a kind, with related ones. -/
def recommend (e : RuleEngine) (kind : EntityKind) (state : Json) (maxResults : Option Int)
    (now : Moment) : Except QueryFailure QueryResult × RuleEngine :=
  match GameState.decode state with
  | .refused why => (.error (.reported (.invalidState why)), e)
  | .ok state =>
    e.query (recommendation e.rules kind) state (recommendationOptions e.rules maxResults) now

/-- How many results are remembered. -/
def cacheSize (e : RuleEngine) : Nat := e.results.size e.time

def queryStatistics (e : RuleEngine) : QueryStatistics :=
  { queries := e.queries, failures := e.failures, cache := e.results.metrics e.time }

/-- The counts of all parts of an engine. -/
def statistics (e : RuleEngine) : Json :=
  let q := e.queryStatistics
  .obj [("condition_evaluator", e.evaluator.statistics),
    ("query_processor", .obj [("queries", .int q.queries), ("failures", .int q.failures),
      ("cache_size", .int q.cache.size), ("cache_hits", .int q.cache.hits),
      ("cache_misses", .int q.cache.misses), ("cache_hit_rate", .float q.cache.hitRate)]),
    ("relationship_graph", e.graph.statistics.encode)]

end RuleEngine

end EntityRules
