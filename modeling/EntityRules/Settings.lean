import EntityRules.Graph
import EntityRules.Text.Case
import EntityRules.Weights

/-! The settings of an engine. Each has a name under which it is given, asked for and reported. -/

namespace EntityRules

/-- The settings of graphs. -/
structure GraphSettings where
  strengthDecay : Float := 0.8
  indirectDepth : Int := 3
  pathHops : Int := 5
  hubFactor : Float := 2.0
  cacheCapacity : Int := 512

/-- The options of a graph that settings describe. -/
def GraphSettings.options (s : GraphSettings) : GraphOptions Float :=
  { strengthDecay := .fractional s.strengthDecay
    indirectDepth := .whole s.indirectDepth
    pathHops := .whole s.pathHops
    hubFactor := .fractional s.hubFactor
    cacheCapacity := .whole s.cacheCapacity }

structure LogSettings where
  level : String := "INFO"
  format : String :=
    "%(asctime)s - %(levelname)s - [%(name)s:%(funcName)s:%(lineno)d] - %(message)s"
  dateFormat : String := "%Y-%m-%d %H:%M:%S"
  directory : String := "logs"
  file : Option String := none
  coloured : Bool := true
  simple : Bool := false

structure EngineSettings where
  maxResults : Int := 50
  cacheEnabled : Bool := true
  cacheCapacity : Int := 1000
  cacheTtl : Option Float := none
  relatedMinStrength : Float := 0.3
  /-- The seconds after an event from which on the time is right for the next one. -/
  dramaticInterval : Float := 300
  /-- The priority that counts fully. -/
  priorityScale : Float := 10
  /-- The number of levels over which a level that is off counts less and less. -/
  levelWindow : Int := 10
  weights : RelevanceWeights Float := .standard
  graph : GraphSettings := {}
  recommendedScore : Float × Float := (0.5, 1)
  recommendedAlignment : Float := 0.3
  recommendedResults : Int := 5
  workers : Int := 4
  log : LogSettings := {}

namespace EngineSettings

open Decode

/-- Brings a number into the range from zero to one. What compares with nothing stays. -/
def confined (x : Float) : Float := Scalar.min (Scalar.max x 0) 1

/-- Brings shares into the range from zero to one, and makes room for one worker and one level. -/
def confine (s : EngineSettings) : EngineSettings :=
  { s with
    relatedMinStrength := confined s.relatedMinStrength
    levelWindow := max s.levelWindow 1
    graph := { s.graph with strengthDecay := confined s.graph.strengthDecay }
    workers := max s.workers 1 }

def decodeLog (ms : Members Json) : Decoded LogSettings :=
  let d : LogSettings := {}
  LogSettings.mk <$>
    field ms ["LOG_LEVEL"] text d.level <*>
    field ms ["LOG_FORMAT"] text d.format <*>
    field ms ["LOG_DATE_FORMAT"] text d.dateFormat <*>
    field ms ["LOG_DIR"] text d.directory <*>
    field ms ["LOG_FILE"] (optional text) d.file <*>
    field ms ["ENABLE_RICH_CONSOLE"] boolean d.coloured <*>
    field ms ["SIMPLE_LOGGING_MODE"] boolean d.simple

def decodeGraph (ms : Members Json) : Decoded GraphSettings :=
  let d : GraphSettings := {}
  (fun strengthDecay indirectDepth pathHops cacheCapacity hubFactor =>
    { strengthDecay, indirectDepth, pathHops, hubFactor, cacheCapacity }) <$>
    field ms ["INDIRECT_STRENGTH_DECAY"] number d.strengthDecay <*>
    field ms ["INDIRECT_MAX_DEPTH"] whole d.indirectDepth <*>
    field ms ["PATH_MAX_HOPS"] whole d.pathHops <*>
    field ms ["GRAPH_CACHE_MAXSIZE"] whole d.cacheCapacity <*>
    field ms ["HUB_CONNECTIVITY_FACTOR"] number d.hubFactor

/-- Reads settings by their exact names; those that are not given have their defaults. -/
def decodeNamed (ms : Members Json) : Decoded EngineSettings :=
  let d : EngineSettings := {}
  confine <$> (EngineSettings.mk <$>
    field ms ["QUERY_MAX_RESULTS"] whole d.maxResults <*>
    field ms ["QUERY_CACHE_ENABLED"] boolean d.cacheEnabled <*>
    field ms ["QUERY_CACHE_MAXSIZE"] whole d.cacheCapacity <*>
    field ms ["QUERY_CACHE_TTL_SECONDS"] (optional number) d.cacheTtl <*>
    field ms ["RELATED_MIN_STRENGTH"] number d.relatedMinStrength <*>
    field ms ["DRAMATIC_TIMING_MIN_INTERVAL_SECONDS"] number d.dramaticInterval <*>
    field ms ["PRIORITY_SCALE"] number d.priorityScale <*>
    field ms ["LEVEL_PROXIMITY_WINDOW"] whole d.levelWindow <*>
    field ms ["relevance_weights"] RelevanceWeights.decode d.weights <*>
    decodeGraph ms <*>
    (Prod.mk <$>
      field ms ["RECOMMENDATION_MIN_SCORE"] number d.recommendedScore.1 <*>
      field ms ["RECOMMENDATION_MAX_SCORE"] number d.recommendedScore.2) <*>
    field ms ["RECOMMENDATION_MIN_ALIGNMENT"] number d.recommendedAlignment <*>
    field ms ["RECOMMENDATION_MAX_RESULTS"] whole d.recommendedResults <*>
    field ms ["BATCH_MAX_WORKERS"] whole d.workers <*>
    decodeLog ms)

/-- The settings by name, without those of the log. -/
def rules (s : EngineSettings) : Members Json := [
  ("QUERY_MAX_RESULTS", .int s.maxResults),
  ("QUERY_CACHE_ENABLED", .bool s.cacheEnabled),
  ("QUERY_CACHE_MAXSIZE", .int s.cacheCapacity),
  ("QUERY_CACHE_TTL_SECONDS", Encode.optional .float s.cacheTtl),
  ("RELATED_MIN_STRENGTH", .float s.relatedMinStrength),
  ("DRAMATIC_TIMING_MIN_INTERVAL_SECONDS", .float s.dramaticInterval),
  ("PRIORITY_SCALE", .float s.priorityScale),
  ("LEVEL_PROXIMITY_WINDOW", .int s.levelWindow),
  ("relevance_weights", s.weights.encode),
  ("INDIRECT_STRENGTH_DECAY", .float s.graph.strengthDecay),
  ("INDIRECT_MAX_DEPTH", .int s.graph.indirectDepth),
  ("PATH_MAX_HOPS", .int s.graph.pathHops),
  ("GRAPH_CACHE_MAXSIZE", .int s.graph.cacheCapacity),
  ("HUB_CONNECTIVITY_FACTOR", .float s.graph.hubFactor),
  ("RECOMMENDATION_MIN_SCORE", .float s.recommendedScore.1),
  ("RECOMMENDATION_MAX_SCORE", .float s.recommendedScore.2),
  ("RECOMMENDATION_MIN_ALIGNMENT", .float s.recommendedAlignment),
  ("RECOMMENDATION_MAX_RESULTS", .int s.recommendedResults),
  ("BATCH_MAX_WORKERS", .int s.workers)]

/-- The settings of the log by name. -/
def logRules (s : EngineSettings) : Members Json := [
  ("LOG_LEVEL", .str s.log.level),
  ("LOG_FORMAT", .str s.log.format),
  ("LOG_DATE_FORMAT", .str s.log.dateFormat),
  ("LOG_DIR", .str s.log.directory),
  ("LOG_FILE", Encode.optional .str s.log.file),
  ("ENABLE_RICH_CONSOLE", .bool s.log.coloured),
  ("SIMPLE_LOGGING_MODE", .bool s.log.simple)]

/-- All settings by name. -/
def members (s : EngineSettings) : Members Json := s.rules ++ s.logRules

/-- The value that is given for a setting: under its exact name, or else the first one under a name
that differs in case only. -/
def given? (ms : Members Json) (name : String) : Option Json :=
  (Members.get? ms name).orElse fun _ =>
    (ms.find? fun m => Text.smalls m.1 = Text.smalls name).map (·.2)

/-- Reads settings, whose names may be written in any case. -/
def decode (ms : Members Json) : Decoded EngineSettings :=
  decodeNamed ((Members.names ({} : EngineSettings).members).filterMap fun name =>
    (given? ms name).map (name, ·))

end EngineSettings

end EntityRules
