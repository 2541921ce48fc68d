import EntityRules.CommandLine.Command
import EntityRules.CommandLine.Display
import EntityRules.Document.Loading

/-! Running commands: what a command shows, and the exit code it ends with. -/

namespace EntityRules.CommandLine

/-- What the console can show. It reads texts as markup, and one that it cannot read ends the
command. -/
structure Console where
  shows : Display → Bool := fun _ => true
  /-- Whether it shows all lines that a command logs. -/
  logs : Command → Bool := fun _ => true

/-- What a command works with: the settings and the evaluator of its engine, the texts of the files
that there are and how those in YAML are read, the console, and the time. -/
structure Surroundings where
  settings : EngineSettings := {}
  evaluator : Evaluator := {}
  text : String → Except FileTrouble String
  yaml : Document.YamlReader
  console : Console := {}
  now : Moment

/-- What a command shows, its exit code, and what it logs of how it ended. -/
structure Report where
  code : Nat
  shown : List Display
  logged : List (Members Json) := []

inductive CommandFailure where
  /-- A failure with a message and what goes with it. -/
  | reported (message : String) (details : Members Json)
  | crash (why : Crash)

/-- How a command line ends. -/
inductive Ending where
  | report (r : Report)
  | stop (why : Stop)
  | crash (why : Crash)

/-- The exit code for failures that are reported. -/
def failureCode : Nat := 2

def CommandFailure.ofLoad : LoadFailure → CommandFailure
  | .trouble why => .reported why.message why.details
  | .crash why => .crash why

/-- What is logged of a failure with a message. -/
def failureEvent (message : String) (details : Members Json) : Members Json :=
  [("level", .str "error"), ("logger", .str "__main__"),
    ("event", .str ("Command failed: " ++ Trouble.withDetails message details)),
    ("details", .obj details)]

def CommandFailure.ending : CommandFailure → Ending
  | reported message details =>
    .report {
      code := failureCode
      shown := [.line (.red (Trouble.withDetails message details))]
      logged := [failureEvent message details] }
  | crash why => .crash why

/-- How a command ends that has come to an end, once the console has shown what there is to show. -/
def Ending.on (console : Console) : Ending → Ending
  | report r => if r.shown.all console.shows then .report r else .crash .markup
  | ending => ending

/-- A list of texts, or a text that stands for the empty list. -/
def listText (separator none : String) (texts : List String) : String :=
  if texts.isEmpty then none else Value.joinWith separator texts

def availabilityRow (r : EntityResult) : List Phrase := [
  r.id,
  if r.success then .green "yes" else .red "no",
  toString r.passed,
  toString r.failed,
  Value.joinWith "; " (r.errors.map (·.message) ++ r.warnings.map (·.message))]

/-- What is shown of a batch. Errors of conditions give an exit code of their own. -/
def batchReport (b : BatchResult) : Report :=
  { code := if b.errors.isEmpty then 0 else 1
    shown := [
      .table "Entity availability" ["Entity", "Available", "Passed", "Failed", "Notes"]
        (b.results.map availabilityRow),
      .timed (toString b.successful ++ "/" ++ toString b.total ++ " available")] }

/-- An argument as a document, given how its text is read; nothing is an empty list. -/
def argumentJson (read : String → Json) : Argument → Json
  | some text => read text
  | none => .arr []

/-- A list of arguments as a document; without arguments there is none. -/
def argumentsJson (arguments : List Argument) : Json :=
  if arguments.isEmpty then .null else Encode.list (argumentJson .str) arguments

/-- A whole number by its text. -/
def wholeJson (text : String) : Json := Encode.optional .int (Number.readInt? text)

namespace QueryRequest

def filterJson (r : QueryRequest) : Json :=
  .obj [("entity_types", argumentsJson r.kinds), ("tags", argumentsJson r.tags)]

def optionsJson (r : QueryRequest) : Json :=
  .obj [("max_results", Encode.optional (argumentJson wholeJson) r.maxResults),
    ("sort_by", argumentJson .str r.sortBy), ("include_related", .bool r.includeRelated)]

end QueryRequest

/-- A record that was put together from arguments. -/
def requested {α : Type} (record : String) : Decoded α → Except CommandFailure α
  | .ok a => .ok a
  | .refused (.faults why) => .error (.crash (.refused record why))
  | .refused .shapeOfNumber => .error (.crash .shape)
  | .refused .sizeOfNumber => .error (.crash .size)

/-- A row of the results, counted from one. -/
def resultRow (rank : Nat) (entity : EntityRecord Float) (score : Float) : List Phrase := [
  toString rank,
  entity.id,
  Vocabulary.name entity.kind,
  Number.text Number.plain entity.priority,
  Number.fixed 3 score]

def resultRows : Nat → List (EntityRecord Float) → List Float → List (List Phrase)
  | rank, entity :: entities, score :: scores =>
    resultRow rank entity score :: resultRows (rank + 1) entities scores
  | _, _, _ => []

def queryReport (r : QueryResult) : Report :=
  { code := 0
    shown := [
      .table ("Query results (" ++ toString r.total ++ " matched)")
        ["#", "Entity", "Type", "Priority", "Relevance"] (resultRows 1 r.entities r.scores),
      .line ("Filters: " ++ listText ", " "none" r.filtersApplied : String)] }

def metricsTable (m : GraphMetrics Float) : Display :=
  .table "Relationship graph" ["", ""] [
    ["Nodes", toString m.nodes],
    ["Edges", toString m.edges],
    ["Average connectivity", Number.fixed 2 m.averageConnectivity],
    ["Strongly connected components", toString m.components.length],
    ["Isolated nodes", listText ", " "-" m.isolated],
    ["Hubs", listText ", " "-"
      (m.hubs.map fun h => h.id ++ " (" ++ toString h.connections ++ ")")]]

/-- What is shown of a path that was asked for. -/
def pathDisplay (source target : String) : Option (GraphPath Float) → Display
  | none => .line (.yellow ("No path from " ++ source ++ " to " ++ target))
  | some p =>
    .panel (Vocabulary.name p.type ++ " path, " ++ toString p.hops ++ " hop(s), strength " ++
      Number.fixed 3 p.strength) (Value.joinWith " -> " p.nodes)

def issueRow (i : GraphIssue) : List Phrase :=
  [i.defect.name, i.source, i.target, Vocabulary.name i.type]

def validationDisplay (r : GraphReport) : Display :=
  if r.isValid then .line (.green "Graph is valid")
  else .table "Validation issues" ["Kind", "Source", "Target", "Type"] (r.issues.map issueRow)

/-- What is shown of a graph: its measures, a path if one is asked for, and its defects if they are
asked for. A path that is not there and a defect give an exit code of their own. The options of the
graph come from settings, so that they are numbers and keep nothing from being told. -/
def graphReport (g : RelationshipGraph Float) (path : Option (String × String)) (validate : Bool)
    (now : Moment) : Report :=
  let found := path.map fun (source, target) =>
    (source, target, (g.path source target none).1.toOption.join)
  let hubs := g.hubs.toOption.getD []
  let report := if validate then some (g.validate now).1 else none
  { code := if found.any (·.2.2.isNone) || report.any (!·.isValid) then 1 else 0
    shown := metricsTable (g.measured hubs) ::
      ((found.map fun (source, target, p) => pathDisplay source target p).toList ++
        (report.map validationDisplay).toList) }

namespace Surroundings

/-- The name of a file; no word is no name. -/
def fileName : Argument → Except CommandFailure String
  | some name => .ok name
  | none => .error (.crash .shape)

def rules (w : Surroundings) (file : Argument) : Except CommandFailure RuleDocument := do
  let name ← fileName file
  (RuleDocument.load w.yaml w.now name (w.text name)).mapError .ofLoad

def state (w : Surroundings) (file : Argument) : Except CommandFailure GameState := do
  let name ← fileName file
  (GameState.load w.yaml name (w.text name)).mapError .ofLoad

def engine (w : Surroundings) (d : RuleDocument) : Except CommandFailure RuleEngine :=
  match d.engine w.settings (.ofSettings w.settings) w.evaluator w.now with
  | .ok e => .ok e
  | .error _ => .error (.crash .noRoom)

end Surroundings

/-- Evaluates all entities of a document. -/
def evaluateEntities (e : RuleEngine) (d : RuleDocument) (state : GameState) : Report :=
  batchReport (e.processBatch (d.conditionSets.map .read) (.ok state)).1

/-- Answers a query for records. -/
def queryRecords (e : RuleEngine) (state : GameState) (request : QueryRequest) (now : Moment) :
    Except CommandFailure Report := do
  let filter ← requested "QueryFilter" (QueryFilter.decode request.filterJson)
  let options ← requested "QueryOptions" (QueryOptions.decode request.optionsJson)
  match (e.query filter state options now).1 with
  | .ok result => return queryReport result
  | .error (.reported why) => throw (.reported why.message why.details)
  | .error (.unwritable why) => throw (.crash (.unwritable why))
  | .error (.lifetime why) => throw (.crash (if why.isSize then .size else .shape))

namespace Command

def run (w : Surroundings) : Command → Except CommandFailure Report
  | evaluate rules state => do
    let document ← w.rules rules
    let state ← w.state state
    return evaluateEntities (← w.engine document) document state
  | query rules state request => do
    let document ← w.rules rules
    let state ← w.state state
    queryRecords (← w.engine document) state request w.now
  | graph rules path validate => do
    let document ← w.rules rules
    return graphReport (← w.engine document).graph path validate w.now

/-- How a command ends, whatever the console makes of it. -/
def ending (w : Surroundings) (command : Command) : Ending :=
  match command.run w with
  | .ok report => .report report
  | .error why => why.ending

/-- Reads a command line and runs its command. -/
def runLine (w : Surroundings) (arguments : List String) : Ending :=
  match read arguments with
  | .error why => .stop why
  | .ok command =>
    if w.console.logs command then (command.ending w).on w.console else .crash .markup

end Command

end EntityRules.CommandLine
