import EntityRules.Entity.Catalog
import EntityRules.Evaluator
import EntityRules.Graph
import EntityRules.Query.Order
import EntityRules.Query.Result
import EntityRules.Query.Score

/-! How a query is answered, stage by stage, from the candidates to the cut list. -/

namespace EntityRules

structure QueryRules where
  scoring : ScoringRules Float
  maxResults : Extent Float
  /-- How strong a relationship has to be to bring in a related entity. -/
  relatedMinStrength : Extent Float
  /-- The seconds after an event from which on the time is right for the next one. -/
  dramaticInterval : Extent Float

namespace QueryRules

/-- Keeps the first record of each identifier. -/
def distinct (seen : List String) : List (EntityRecord Float) → List (EntityRecord Float)
  | [] => []
  | e :: rest => if e.id ∈ seen then distinct seen rest else e :: distinct (e.id :: seen) rest

/-- The kinds that candidates are fetched for, one after another; all kinds at once when none is
given. -/
def requests (filter : QueryFilter) : List (Option EntityKind) :=
  match filter.entityTypes with
  | none | some [] => [none]
  | some kinds => kinds.map some

/-- Whether a list of wanted tags, if there is one, meets the tags of an entity. -/
def passesTags (filter : QueryFilter) (e : EntityRecord Float) : Bool :=
  match filter.tags with
  | none | some [] => true
  | some wanted => wanted.any (e.tags.contains ·)

def passesPriority (filter : QueryFilter) (e : EntityRecord Float) : Bool :=
  match filter.priority with
  | none => true
  | some range =>
    !(range.min.any fun low => decide (e.priority < low)) &&
      !(range.max.any fun high => decide (high < e.priority))

/-- An entity without a place fits everywhere. -/
def passesLocation (filter : QueryFilter) (e : EntityRecord Float) : Bool :=
  match filter.location, e.location with
  | some wanted, some place => wanted = "" || place = "" || place = wanted
  | _, _ => true

/-- Whether the availability of an entity fits into the window, as far as both are given. -/
def passesWindow (filter : QueryFilter) (e : EntityRecord Float) : Bool :=
  match filter.timeConstraints with
  | none => true
  | some window =>
    (match window.endTime, e.availableUntil with
      | some finish, some last => decide (last.instant ≤ finish.instant)
      | _, _ => true) &&
    (match window.startTime, e.availableFrom with
      | some start, some first => decide (start.instant ≤ first.instant)
      | _, _ => true)

/-- The filters that look at the record alone. -/
def passesFilters (filter : QueryFilter) (e : EntityRecord Float) : Bool :=
  !(filter.excludeIds.getD []).contains e.id && passesTags filter e && passesPriority filter e &&
    passesLocation filter e && passesWindow filter e

/-- Whether an entity keeps within the soft bounds. A bound on a number that the entity does not
have holds. -/
def passesBounds (filter : QueryFilter) (e : EntityRecord Float) : Bool :=
  match filter.softBounds with
  | none => true
  | some bounds =>
    (match bounds.playerAlignment, e.playerAlignment with
      | some bound, some x => !decide (x < bound.min)
      | _, _ => true) &&
    (match bounds.storyRelevance, e.storyRelevance with
      | some bound, some x => !decide (x < bound.min)
      | _, _ => true) &&
    (match bounds.difficultyMatch, e.difficulty with
      | some bound, some x => !decide (bound.tolerance < (x - bound.target).abs)
      | _, _ => true)

/-- What conditions see when they are evaluated for an entity. -/
def contextOf (state : GameState) (e : EntityRecord Float) : EvaluationContext :=
  { state, entityId := e.id, kind := some e.kind, metadata := e.metadata }

/-- Evaluates conditions up to the first that is false. -/
def holdAll (ctx : EvaluationContext) : List Condition → Evaluator → Bool × Evaluator
  | [], ev => (true, ev)
  | c :: rest, ev =>
    let (o, ev) := ev.evaluate ctx c
    if o.result then holdAll ctx rest ev else (false, ev)

/-- Keeps the entities for which all conditions hold, evaluating them entity by entity. -/
def keepHolding (state : GameState) (conditions : List Condition) :
    List (EntityRecord Float) → Evaluator → List (EntityRecord Float) × Evaluator
  | [], ev => ([], ev)
  | e :: rest, ev =>
    let (holds, ev) := holdAll (contextOf state e) conditions ev
    let (kept, ev) := keepHolding state conditions rest ev
    (if holds then e :: kept else kept, ev)

/-- The share of a resource that a player has when nothing is known about it. -/
def fullResource : Float := 100

/-- A resource of the player under the first of its names that is known. -/
def resource (player : PlayerState) (name otherName : String) : Float :=
  match Members.get? player.stats name with
  | some x => x
  | none => (Members.get? player.stats otherName).getD fullResource

/-- Whether a resource suffices; nothing is needed when the need is zero. -/
def meetsNeed (need : Option Float) (amount : Float) : Bool :=
  match need with
  | none => true
  | some n => !(n != 0.0 && decide (amount < n))

def storyAppropriate (state : GameState) (e : EntityRecord Float) : Bool :=
  match e.requiredPhase with
  | none | some "" => true
  | some name =>
    match SessionPhase.ofAlias? name with
    | some phase => state.session.phase = phase
    | none => Vocabulary.name state.session.phase = name

def playerReady (state : GameState) (e : EntityRecord Float) : Bool :=
  match e.requirements with
  | none => true
  | some needs =>
    !(needs.level.any fun level => decide (state.player.level < level)) &&
      needs.items.all (state.player.items.contains ·)

/-- Whether enough time has passed since the latest event. -/
def dramaticTiming (rules : QueryRules) (clock : Int) (state : GameState)
    (e : EntityRecord Float) : Except PipelineTrouble Bool :=
  match state.lastEventTime? with
  | none => .error .mixedTimes
  | some none => .ok true
  | some (some last) =>
    let interval := (e.minEventInterval.map .fractional).getD rules.dramaticInterval
    (interval.isReached (Moment.secondsBetween last.instant clock)).mapError .extent

def resourceAvailable (state : GameState) (e : EntityRecord Float) : Bool :=
  match e.resourceRequirements with
  | none => true
  | some needs =>
    meetsNeed needs.hp (resource state.player "hp" "hitPoints") &&
      meetsNeed needs.mp (resource state.player "mp" "magicPoints")

def factorHolds (rules : QueryRules) (clock : Int) (state : GameState)
    (e : EntityRecord Float) : ContextFactor → Except PipelineTrouble Bool
  | .storyAppropriate => .ok (storyAppropriate state e)
  | .playerReady => .ok (playerReady state e)
  | .dramaticTiming => rules.dramaticTiming clock state e
  | .resourceAvailable => .ok (resourceAvailable state e)

/-- Checks factors up to the first that does not hold. Names that are no factors are passed over. -/
def factorsHold (rules : QueryRules) (clock : Int) (state : GameState)
    (e : EntityRecord Float) : List String → Except PipelineTrouble Bool
  | [] => .ok true
  | name :: rest =>
    match Vocabulary.ofName? name with
    | none => factorsHold rules clock state e rest
    | some factor =>
      match rules.factorHolds clock state e factor with
      | .error why => .error why
      | .ok false => .ok false
      | .ok true => factorsHold rules clock state e rest

/-- Keeps the entities for which all factors hold. -/
def keepFitting (rules : QueryRules) (clock : Int) (state : GameState) (factors : List String) :
    List (EntityRecord Float) → Except PipelineTrouble (List (EntityRecord Float))
  | [] => .ok []
  | e :: rest =>
    match rules.factorsHold clock state e factors with
    | .error why => .error why
    | .ok holds =>
      (keepFitting rules clock state factors rest).map fun kept =>
        if holds then e :: kept else kept

/-- Whether a relationship matters in the current context. -/
def fitsContext (state : GameState) (r : Relationship Float) : Bool :=
  match r.metadata.context with
  | none | some "" => true
  | some tag => state.contextTags.contains tag

/-- Whether a relationship brings in its target: it is strong enough and matters in the current
context. -/
def isRelevant (rules : QueryRules) (state : GameState) (r : Relationship Float) :
    Except ExtentTrouble Bool :=
  (rules.relatedMinStrength.isAbove r.strength).map fun weak => !weak && fitsContext state r

/-- The records that relationships lead to, each once and none that was seen. -/
def discover (catalog : EntityCatalog) (relevant : Relationship Float → Except ExtentTrouble Bool)
    (seen : List String) :
    List (Relationship Float) → Except ExtentTrouble (List (EntityRecord Float))
  | [] => .ok []
  | r :: rest =>
    if r.target ∈ seen then discover catalog relevant seen rest
    else
      match relevant r, catalog.get? r.target with
      | .error why, _ => .error why
      | .ok true, some e => (discover catalog relevant (r.target :: seen) rest).map (e :: ·)
      | .ok _, _ => discover catalog relevant seen rest

/-- The entities related to those found, in the order in which their relationships stand. -/
def related (rules : QueryRules) (catalog : EntityCatalog) (graph : RelationshipGraph Float)
    (filter : QueryFilter) (state : GameState) (found : List (EntityRecord Float)) :
    Except ExtentTrouble (List (EntityRecord Float)) :=
  discover catalog (rules.isRelevant state)
    (found.map (·.id) ++ filter.excludeIds.getD [])
    (found.flatMap fun e => graph.outgoingOf e.id)

/-- The entities found with those related to them, if they are wanted. -/
def joined (rules : QueryRules) (catalog : EntityCatalog) (graph : RelationshipGraph Float)
    (filter : QueryFilter) (state : GameState) (options : QueryOptions)
    (found : List (EntityRecord Float)) : Except PipelineTrouble (List (EntityRecord Float)) :=
  if options.includeRelated then
    ((rules.related catalog graph filter state found).mapError .extent).map (found ++ ·)
  else .ok found

abbrev Scored := EntityRecord Float × Float

/-- Scores entities; fails at the first whose score cannot be told. -/
def scoreAll (rules : QueryRules) (filter : QueryFilter) (state : GameState)
    (es : List (EntityRecord Float)) : Except PipelineTrouble (List Scored) :=
  (es.mapM fun e => (rules.scoring.score filter state e).map fun s => (e, s)).mapError .extent

/-- Whether a score lies in the range that is asked for. -/
def inScoreRange (filter : QueryFilter) (score : Float) : Bool :=
  match filter.softBounds.bind (·.recommendationScore) with
  | none => true
  | some range => decide (range.min ≤ score) && decide (score ≤ range.max)

/-- Sorts by a key, the greatest first. Keys of which none is less keep their order; keys that
compare with nothing stand where sorting by halving leaves them. -/
def descending (key : Scored → Float) (xs : List Scored) : List Scored :=
  if xs.any (fun x => (key x).isNaN) then Order.sortDown (fun a b => decide (key a < key b)) xs
  else xs.mergeSort fun a b => !decide (key a < key b)

/-- The time of an entity on a clock of seconds; an entity without one comes before all times. -/
def timeKey (e : EntityRecord Float) : Float :=
  match e.timestamp with
  | some m => m.seconds
  | none => -1.0 / 0.0

/-- Sorts by the strategy of a name; a name that is no strategy leaves the order. -/
def sortBy (name : String) (xs : List Scored) : List Scored :=
  match Vocabulary.ofName? name with
  | some SortStrategy.relevance => descending (·.2) xs
  | some SortStrategy.priority => descending (·.1.priority) xs
  | some SortStrategy.timestamp => descending (fun x => timeKey x.1) xs
  | none => xs

/-- How many results are given at most. -/
def limit (rules : QueryRules) (options : QueryOptions) : Except PipelineTrouble Nat :=
  (((options.maxResults.map .whole).getD rules.maxResults).count).mapError .extent

/-- What a game state says something about. -/
def contextNames (state : GameState) : List String :=
  (if state.story.isSome then ["story_context"] else []) ++
  (if state.player.id ≠ "" then ["player_context"] else []) ++ ["session_context"] ++
  (if state.contextTags.isEmpty then [] else ["tag_context"])

/-- Ranks the entities found and cuts the list. -/
def rank (rules : QueryRules) (filter : QueryFilter) (state : GameState) (options : QueryOptions)
    (es : List (EntityRecord Float)) : Except PipelineTrouble QueryResult :=
  (rules.scoreAll filter state es).bind fun scored =>
    let ordered := sortBy options.sortBy (scored.filter fun x => inScoreRange filter x.2)
    (rules.limit options).map fun limit =>
      let limited := ordered.take limit
      { entities := limited.map (·.1), scores := limited.map (·.2), total := ordered.length
        filtersApplied := filter.applied, sortedBy := options.sortBy
        contextFactors := contextNames state, cacheHit := false }

/-- Answers a query from candidates that were fetched. -/
def answer (rules : QueryRules) (clock : Int) (catalog : EntityCatalog)
    (graph : RelationshipGraph Float) (filter : QueryFilter) (state : GameState)
    (options : QueryOptions) (fetched : List (EntityRecord Float)) (ev : Evaluator) :
    Except PipelineTrouble QueryResult × Evaluator :=
  let (es, ev) :=
    keepHolding state (filter.conditions.getD []) (fetched.filter (passesFilters filter)) ev
  match rules.keepFitting clock state (filter.contextFactors.getD []) es with
  | .error why => (.error why, ev)
  | .ok es =>
    match rules.joined catalog graph filter state options (es.filter (passesBounds filter)) with
    | .error why => (.error why, ev)
    | .ok es => (rules.rank filter state options es, ev)

end QueryRules

end EntityRules
