import EntityRules.Encode.Fault
import EntityRules.Entity
import EntityRules.Json.Canonical
import EntityRules.Query.Filter
import EntityRules.Query.Score
import EntityRules.Value.Text

/-! Results of queries, and what keeps a query from being answered. -/

namespace EntityRules

structure QueryResult where
  entities : List (EntityRecord Float)
  scores : List Float
  /-- How many entities there were before the list was cut. -/
  total : Nat
  filtersApplied : List String
  sortedBy : String
  contextFactors : List String
  /-- Whether the result was remembered. -/
  cacheHit : Bool

/-- Writes a result, with its entities or with their identifiers alone. -/
def QueryResult.encode (r : QueryResult) (full : Bool) : Json :=
  .obj ([("ids", Encode.list (.str ·.id) r.entities), ("scores", Encode.list .float r.scores),
    ("total", .int r.total), ("filters_applied", Encode.list .str r.filtersApplied),
    ("sorted_by", .str r.sortedBy), ("context_factors", Encode.list .str r.contextFactors),
    ("cache_hit", .bool r.cacheHit)] ++
    if full then [("entities", Encode.list EntityRecord.encode r.entities)] else [])

/-- What makes a query fail on its way. -/
inductive PipelineTrouble where
  /-- Naive times stand among times with an offset. -/
  | mixedTimes
  | extent (why : ExtentTrouble)
  /-- The catalog failed, with a message of its own. -/
  | catalog (message : String)

def PipelineTrouble.message : PipelineTrouble → String
  | mixedTimes => "can't compare offset-naive and offset-aware datetimes"
  | extent why => why.message
  | catalog message => message

inductive QueryTrouble where
  | invalidState (why : Refusal)
  /-- The filter or the options cannot be read. -/
  | invalidRequest (why : Refusal)
  /-- Entities of an unknown kind are to be recommended. -/
  | unknownKind (kind : Json)
  | pipeline (why : PipelineTrouble) (filter : QueryFilter) (options : QueryOptions)

namespace QueryTrouble

/-- What all messages begin with. -/
def failed (why : String) : String := "Query execution failed: " ++ why

def message : QueryTrouble → String
  | invalidState _ => failed "invalid game state"
  | invalidRequest _ => failed "invalid filter or options"
  | unknownKind kind => failed ("unknown entity type " ++ kind.innerMessage)
  | pipeline why _ _ => failed why.message

/-- What goes with the message of a failed pipeline: the kinds asked for, if any, and the order. -/
def pipelineDetails (filter : QueryFilter) (options : QueryOptions) : Members Json :=
  (match filter.entityTypes with
    | none | some [] => []
    | some kinds => [("entity_types", Encode.list Encode.word kinds)]) ++
  [("sort_by", .str options.sortBy)]

/-- What goes with the message about an unknown kind. -/
def kindDetails (kind : Json) : Members Json :=
  [("entity_type", kind), ("known", Encode.list Encode.word (Vocabulary.all : List EntityKind))]

/-- The faults of a refusal, if it has any. -/
def faultDetails : Refusal → Members Json
  | .faults fs => Fault.report fs
  | _ => []

/-- What goes with the message. -/
def details : QueryTrouble → Members Json
  | invalidState why | invalidRequest why => faultDetails why
  | unknownKind kind => kindDetails kind
  | pipeline _ filter options => pipelineDetails filter options

end QueryTrouble

/-- How a query ends without a result. -/
inductive QueryFailure where
  /-- The trouble is reported. -/
  | reported (why : QueryTrouble)
  /-- A part of the query cannot be written, and so the query has no fingerprint. -/
  | unwritable (why : Json.PrintTrouble)
  /-- It cannot be told how long the result is to be remembered. -/
  | lifetime (why : ExtentTrouble)

end EntityRules
