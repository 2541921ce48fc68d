import EntityRules.CommandLine.Grammar
import EntityRules.Number.Reading

/-! Commands: to evaluate entities, to query records, and to inspect the graph of a document. -/

namespace EntityRules.CommandLine

/-- What a query is asked for. -/
structure QueryRequest where
  kinds : List Argument
  tags : List Argument
  /-- The text of a whole number, if one is asked for. -/
  maxResults : Option Argument
  sortBy : Argument
  includeRelated : Bool

/-- A command, with the files that it reads. -/
inductive Command where
  | evaluate (rules state : Argument)
  | query (rules state : Argument) (request : QueryRequest)
  | graph (rules : Argument) (path : Option (String × String)) (validate : Bool)

namespace Command

def helpRules : List OptionRule := [⟨"-h", .help⟩, ⟨"--help", .help⟩]

def anyText (_ : String) : Bool := true

/-- The orders that a query can ask for. -/
def orders : List String := ["relevance", "priority", "timestamp"]

/-- What stands before a command. -/
def mainGrammar : Grammar := { places := 0, options := helpRules }

def evaluateGrammar : Grammar := { places := 2, options := helpRules }

def queryGrammar : Grammar :=
  { places := 2
    options := helpRules ++ [
      ⟨"--type", .takes 1 anyText⟩,
      ⟨"--tag", .takes 1 anyText⟩,
      ⟨"--max-results", .takes 1 fun text => (Number.readInt? text).isSome⟩,
      ⟨"--sort-by", .takes 1 (orders.contains ·)⟩,
      ⟨"--include-related", .takes 0 anyText⟩] }

def graphGrammar : Grammar :=
  { places := 1
    options := helpRules ++ [
      ⟨"--path", .takes 2 anyText⟩,
      ⟨"--validate", .takes 0 anyText⟩] }

/-- The single argument of the last option of a name. -/
def single? (a : Arguments) (name : String) : Option Argument :=
  (a.lastOf? name).bind (·.head?)

def ofEvaluate (a : Arguments) : Command := .evaluate (a.atPlace 0) (a.atPlace 1)

def ofQuery (a : Arguments) : Command :=
  .query (a.atPlace 0) (a.atPlace 1) {
    kinds := a.allOf "--type"
    tags := a.allOf "--tag"
    maxResults := single? a "--max-results"
    sortBy := (single? a "--sort-by").getD (some "relevance")
    includeRelated := a.has "--include-related" }

def ofGraph (a : Arguments) : Command :=
  let path := match a.lastOf? "--path" with
    | some [some source, some target] => some (source, target)
    | _ => none
  .graph (a.atPlace 0) path (a.has "--validate")

/-- Reads the arguments behind the name of a command. -/
def ofArguments (name : String) (arguments : List String) : Except Stop Command :=
  match name with
  | "evaluate" => ofEvaluate <$> evaluateGrammar.read arguments
  | "query" => ofQuery <$> queryGrammar.read arguments
  | "graph" => ofGraph <$> graphGrammar.read arguments
  | _ => .error .misuse

/-- Reads a whole command line. -/
def read (arguments : List String) : Except Stop Command := do
  let (name, rest, stray) ← mainGrammar.cutCommand false arguments
  let command ← ofArguments name rest
  if stray then throw .misuse else return command

/-- The files that a command reads. -/
def files : Command → List String
  | evaluate rules state | query rules state _ => [rules, state].filterMap id
  | graph rules _ _ => rules.toList

end Command

end EntityRules.CommandLine
