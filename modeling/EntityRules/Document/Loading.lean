import EntityRules.Document
import EntityRules.Engine.Processing
import EntityRules.RuleDocument
import EntityRules.State.Context

/-! Rule documents and game states from files, and engines made from rule documents. -/

namespace EntityRules

namespace RuleDocument

/-- The rule document in a file. -/
def load (yaml : Document.YamlReader) (now : Moment) (file : String)
    (text : Except FileTrouble String) : Except LoadFailure RuleDocument := do
  match decode now (.obj (← Document.read yaml file text)) with
  | .ok d => return d
  | .refused (.faults why) => throw (.trouble (.invalidRules file why))
  | .refused .shapeOfNumber => throw (.crash .shape)
  | .refused .sizeOfNumber => throw (.crash .size)

/-- The graph that a document describes. Its entities and the identifiers of its records are nodes
before the relationships are added. -/
def graph (d : RuleDocument) (options : GraphOptions Float) (now : Moment) :
    Except CapacityTrouble (RelationshipGraph Float) :=
  (RelationshipGraph.create options now).map fun g =>
    let ids := Members.names d.entities ++ d.records.map (·.id)
    d.relationships.foldl (·.add · now) (ids.foldl (·.register · now) g)

/-- An engine under options that knows the records and the relationships of a document. -/
def engine (d : RuleDocument) (settings : EngineSettings) (options : EngineOptions)
    (evaluator : Evaluator) (now : Moment) : Except OptionTrouble RuleEngine := do
  let graph ← (d.graph settings.graph.options now).mapError .capacity
  RuleEngine.create settings options evaluator (.ofList d.records) graph now.instant

end RuleDocument

namespace GameState

/-- The names that only a session context has. -/
def contextNames : List String :=
  ["currentState", "current_state", "sessionMode", "session_mode"]

/-- How a game state that is refused is reported. -/
def failure (file : String) : Refusal → LoadFailure
  | .faults _ | .shapeOfNumber => .trouble (.invalidState file)
  | .sizeOfNumber => .crash .size

/-- The game state in a file, which holds it as such or as a session context. -/
def load (yaml : Document.YamlReader) (file : String) (text : Except FileTrouble String) :
    Except LoadFailure GameState := do
  let ms ← Document.read yaml file text
  if contextNames.any (Members.has ms) then
    match ofContext (.obj ms) with
    | .ok s => return s
    | .error .shape => throw (.trouble (.invalidState file))
    | .error .notAPair => throw (.crash .notAPair)
    | .error (.invalid _ why) => throw (failure file why)
  else
    match decode (.obj ms) with
    | .ok s => return s
    | .refused why => throw (failure file why)

end GameState

end EntityRules
