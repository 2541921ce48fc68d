import EntityRules.Query.Score
import EntityRules.Settings

/-! Options: what a single engine or graph is given in place of settings. -/

namespace EntityRules

/-- Why options are not taken. -/
inductive OptionTrouble where
  /-- There is no option of a name. -/
  | unknownName (name : String)
  | extent (why : ExtentTrouble)
  | capacity (why : CapacityTrouble)
  | weights (why : Refusal)

namespace Options

/-- Checks that all options have one of the names that there are. -/
def checkNames (names : List String) (options : Members Json) : Except OptionTrouble Unit :=
  match options.find? fun m => !names.contains m.1 with
  | some m => .error (.unknownName m.1)
  | none => .ok ()

/-- The value of an option that is given. -/
def value? (options : Members Json) (name : String) : Option Json :=
  (Members.get? options name).filter (!·.isNull)

/-- An option that is a size of any type. -/
def extent (options : Members Json) (name : String) (default : Extent Float) : Extent Float :=
  ((value? options name).map Extent.ofJson).getD default

end Options

open Options

/-- What an engine can be given options for. -/
structure EngineOptions where
  scoring : ScoringRules Float
  maxResults : Extent Float
  cacheEnabled : Bool
  cacheCapacity : Extent Float
  cacheTtl : Option (Extent Float)
  relatedMinStrength : Extent Float
  dramaticInterval : Extent Float
  /-- How many entities may be processed at the same time. -/
  workers : Extent Float

/-- The scoring rules that settings describe. -/
def EngineSettings.scoring (s : EngineSettings) : ScoringRules Float :=
  { weights := s.weights, priorityScale := .fractional s.priorityScale
    levelWindow := .whole (max 1 s.levelWindow) }

/-- Weights under options. -/
def readWeights (weights : RelevanceWeights Float) (options : Members Json) :
    Except OptionTrouble (RelevanceWeights Float) :=
  match (value? options "weights").map RelevanceWeights.decode with
  | none => .ok weights
  | some (.ok weights) => .ok weights
  | some (.refused why) => .error (.weights why)

/-- Scoring rules under options; the window is brought up to one level. -/
def ScoringRules.read (rules : ScoringRules Float) (options : Members Json) :
    Except OptionTrouble (ScoringRules Float) := do
  let weights ← readWeights rules.weights options
  let levelWindow ← ((extent options "level_window" rules.levelWindow).atLeastOne).mapError .extent
  let priorityScale := extent options "priority_scale" rules.priorityScale
  return { weights, levelWindow, priorityScale }

namespace EngineOptions

/-- The names of the options. -/
def names : List String := [
  "max_workers", "max_results", "cache_enabled", "cache_maxsize", "cache_ttl",
  "related_min_strength", "dramatic_interval_seconds", "priority_scale", "level_window", "weights"]

/-- Options without those for parts of an engine that only its queries use. -/
def withoutParts (options : Members Json) : Members Json :=
  options.filter fun m => m.1 ∉ ["weights", "evaluator", "rng", "clock"]

/-- The options that stand for the settings. -/
def ofSettings (s : EngineSettings) : EngineOptions :=
  { scoring := s.scoring, maxResults := .whole s.maxResults, cacheEnabled := s.cacheEnabled
    cacheCapacity := .whole s.cacheCapacity
    cacheTtl := s.cacheTtl.map .fractional
    relatedMinStrength := .fractional s.relatedMinStrength
    dramaticInterval := .fractional s.dramaticInterval
    workers := .whole s.workers }

/-- Options read from a document; those that are not given stay as they are. -/
def read (o : EngineOptions) (options : Members Json) : Except OptionTrouble EngineOptions := do
  let _ ← readWeights o.scoring.weights options
  checkNames names options
  let scoring ← o.scoring.read options
  return {
    scoring
    maxResults := extent options "max_results" o.maxResults
    cacheEnabled := ((value? options "cache_enabled").map Json.truthy).getD o.cacheEnabled
    cacheCapacity := extent options "cache_maxsize" o.cacheCapacity
    cacheTtl := ((value? options "cache_ttl").map Extent.ofJson).orElse fun _ => o.cacheTtl
    relatedMinStrength := extent options "related_min_strength" o.relatedMinStrength
    dramaticInterval := extent options "dramatic_interval_seconds" o.dramaticInterval
    workers := extent options "max_workers" o.workers }

end EngineOptions

namespace GraphOptions

/-- The names of the options of a graph. -/
def names : List String :=
  ["strength_decay", "indirect_max_depth", "path_max_hops", "hub_factor", "cache_maxsize"]

/-- Options read from a document; those that are not given stay as they are. -/
def read (o : GraphOptions Float) (options : Members Json) :
    Except OptionTrouble (GraphOptions Float) := do
  checkNames names options
  return {
    strengthDecay := extent options "strength_decay" o.strengthDecay
    indirectDepth := extent options "indirect_max_depth" o.indirectDepth
    pathHops := extent options "path_max_hops" o.pathHops
    hubFactor := extent options "hub_factor" o.hubFactor
    cacheCapacity := extent options "cache_maxsize" o.cacheCapacity }

end GraphOptions

end EntityRules
