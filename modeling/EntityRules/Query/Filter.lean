import EntityRules.Condition

/-! What a query asks for: filters, conditions, context factors and soft bounds, order and limit. -/

namespace EntityRules

structure PriorityRange where
  min : Option Float := none
  max : Option Float := none

/-- The window that the availability of an entity has to fit in. -/
structure TimeConstraints where
  startTime : Option Moment := none
  endTime : Option Moment := none

structure ScoreRange where
  min : Float := 0
  max : Float := 1

structure MinimumBound where
  min : Float := 0

structure DifficultyMatch where
  target : Float
  tolerance : Float := 0

/-- Bounds on numbers that exclude only entities that have the number. -/
structure SoftBounds where
  recommendationScore : Option ScoreRange := none
  playerAlignment : Option MinimumBound := none
  storyRelevance : Option MinimumBound := none
  difficultyMatch : Option DifficultyMatch := none

structure QueryFilter where
  entityTypes : Option (List EntityKind) := none
  tags : Option (List String) := none
  priority : Option PriorityRange := none
  excludeIds : Option (List String) := none
  location : Option String := none
  conditions : Option (List Condition) := none
  contextFactors : Option (List String) := none
  timeConstraints : Option TimeConstraints := none
  softBounds : Option SoftBounds := none

structure QueryOptions where
  maxResults : Option Int := none
  includeRelated : Bool := false
  /-- An unknown order leaves the results as they were found. -/
  sortBy : String := "relevance"
  useCache : Bool := true

/-- The conditions that gate one entity. -/
structure EntityConditionSet where
  entityId : String
  conditions : List Condition
  kind : Option EntityKind

open Decode

/-- A number on its own is the least priority. -/
def PriorityRange.decode (j : Json) : Decoded PriorityRange :=
  let j := match j with
    | .int _ | .float _ => .obj [("min", j)]
    | j => j
  record (fun ms =>
    PriorityRange.mk <$>
      field ms ["min"] (optional number) none <*>
      field ms ["max"] (optional number) none) j

def PriorityRange.encode (r : PriorityRange) : Json :=
  .obj [("min", Encode.optional .float r.min), ("max", Encode.optional .float r.max)]

def TimeConstraints.decode : Json → Decoded TimeConstraints :=
  record fun ms =>
    TimeConstraints.mk <$>
      field ms ["start_time", "startTime", "after"] (optional moment) none <*>
      field ms ["end_time", "endTime", "before"] (optional moment) none

def TimeConstraints.encode (t : TimeConstraints) : Json :=
  .obj [("start_time", Encode.optional Encode.moment t.startTime),
    ("end_time", Encode.optional Encode.moment t.endTime)]

def ScoreRange.decode : Json → Decoded ScoreRange :=
  record fun ms => ScoreRange.mk <$> field ms ["min"] number 0 <*> field ms ["max"] number 1

def ScoreRange.encode (r : ScoreRange) : Json := .obj [("min", .float r.min), ("max", .float r.max)]

def MinimumBound.decode : Json → Decoded MinimumBound :=
  record fun ms => MinimumBound.mk <$> field ms ["min"] number 0

def MinimumBound.encode (b : MinimumBound) : Json := .obj [("min", .float b.min)]

def DifficultyMatch.decode : Json → Decoded DifficultyMatch :=
  record fun ms =>
    DifficultyMatch.mk <$> required ms ["target"] number <*> field ms ["tolerance"] number 0

def DifficultyMatch.encode (d : DifficultyMatch) : Json :=
  .obj [("target", .float d.target), ("tolerance", .float d.tolerance)]

def SoftBounds.decode : Json → Decoded SoftBounds :=
  record fun ms =>
    SoftBounds.mk <$>
      field ms ["recommendation_score", "recommendationScore"] (optional ScoreRange.decode) none <*>
      field ms ["player_alignment", "playerAlignment"] (optional MinimumBound.decode) none <*>
      field ms ["story_relevance", "storyRelevance"] (optional MinimumBound.decode) none <*>
      field ms ["difficulty_match", "difficultyMatch"] (optional DifficultyMatch.decode) none

def SoftBounds.encode (b : SoftBounds) : Json :=
  .obj [("recommendation_score", Encode.optional ScoreRange.encode b.recommendationScore),
    ("player_alignment", Encode.optional MinimumBound.encode b.playerAlignment),
    ("story_relevance", Encode.optional MinimumBound.encode b.storyRelevance),
    ("difficulty_match", Encode.optional DifficultyMatch.encode b.difficultyMatch)]

namespace QueryFilter

/-- Context factors may be given as an object, whose names are the factors. -/
def factors (j : Json) : Decoded (Option (List String)) :=
  match j with
  | .obj ms => .ok (some (Members.names ms))
  | j => optional (list text) j

def decode : Json → Decoded QueryFilter :=
  record fun ms =>
    QueryFilter.mk <$>
      field ms ["entity_types", "entityTypes"] (optional (list word)) none <*>
      field ms ["tags"] (optional (list text)) none <*>
      field ms ["priority"] (optional PriorityRange.decode) none <*>
      field ms ["exclude_ids", "excludeIds"] (optional (list text)) none <*>
      field ms ["location"] (optional text) none <*>
      field ms ["conditions"] (optional (list Condition.decode)) none <*>
      field ms ["context_factors", "contextFactors"] factors none <*>
      field ms ["time_constraints", "timeConstraints"] (optional TimeConstraints.decode) none <*>
      field ms ["ai_criteria", "aiCriteria"] (optional SoftBounds.decode) none

def encode (f : QueryFilter) : Json :=
  .obj [("entity_types", Encode.optional (Encode.list Encode.word) f.entityTypes),
    ("tags", Encode.optional (Encode.list .str) f.tags),
    ("priority", Encode.optional PriorityRange.encode f.priority),
    ("exclude_ids", Encode.optional (Encode.list .str) f.excludeIds),
    ("location", Encode.optional .str f.location),
    ("conditions", Encode.optional (fun cs => .arr (Condition.encodeAll cs)) f.conditions),
    ("context_factors", Encode.optional (Encode.list .str) f.contextFactors),
    ("time_constraints", Encode.optional TimeConstraints.encode f.timeConstraints),
    ("ai_criteria", Encode.optional SoftBounds.encode f.softBounds)]

/-- Whether a list is given and not empty. -/
def isFilled {α : Type} (xs : Option (List α)) : Bool := xs.any (!·.isEmpty)

/-- The filters by name, each with whether it is set; an empty list or text is not. -/
def set (f : QueryFilter) : List (String × Bool) := [
  ("tags", isFilled f.tags),
  ("priority", f.priority.isSome),
  ("exclude_ids", isFilled f.excludeIds),
  ("location", f.location.any (· ≠ "")),
  ("conditions", isFilled f.conditions),
  ("context_factors", isFilled f.contextFactors),
  ("time_constraints", f.timeConstraints.isSome),
  ("ai_criteria", f.softBounds.isSome)]

/-- The names of the filters that are set. -/
def applied (f : QueryFilter) : List String := (f.set.filter (·.2)).map (·.1)

end QueryFilter

def QueryOptions.decode : Json → Decoded QueryOptions :=
  record fun ms =>
    QueryOptions.mk <$>
      field ms ["max_results", "maxResults"] (optional whole) none <*>
      field ms ["include_related", "includeRelated"] boolean false <*>
      field ms ["sort_by", "sortBy"] text "relevance" <*>
      field ms ["use_cache", "useCache"] boolean true

def QueryOptions.encode (o : QueryOptions) : Json :=
  .obj [("max_results", Encode.optional .int o.maxResults),
    ("include_related", .bool o.includeRelated), ("sort_by", .str o.sortBy),
    ("use_cache", .bool o.useCache)]

def EntityConditionSet.decode : Json → Decoded EntityConditionSet :=
  record fun ms =>
    EntityConditionSet.mk <$>
      required ms ["entity_id", "entityId"] text <*>
      field ms ["conditions"] (list Condition.decode) [] <*>
      field ms ["entity_type", "entityType"] (optional word) none

def EntityConditionSet.encode (s : EntityConditionSet) : Json :=
  .obj [("entity_id", .str s.entityId), ("conditions", .arr (Condition.encodeAll s.conditions)),
    ("entity_type", Encode.optional Encode.word s.kind)]

end EntityRules
