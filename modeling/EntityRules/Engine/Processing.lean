import EntityRules.Engine

/-! Evaluating all conditions of single entities and of batches, and whether they are available. -/

namespace EntityRules

/-- Why an entry of a batch cannot be read. -/
inductive EntryFault where
  /-- Faults, by their number. -/
  | faults (count : Nat)
  /-- A pair without its second part. -/
  | tooShort
  /-- A value of a type where the conditions of a pair should be. -/
  | notAList (type : String)

/-- What went wrong with an entity. -/
inductive ProcessingError where
  | condition (why : Trouble)
  /-- Faults of the game state, by their number. -/
  | invalidState (count : Nat)
  | invalidEntry (why : EntryFault)

structure EntityResult where
  id : String
  /-- The kind of the entity, if it could be told. -/
  kind : Option EntityKind
  success : Bool
  evaluated : Nat
  passed : Nat
  failed : Nat
  errors : List ProcessingError
  warnings : List Warning

structure BatchResult where
  results : List EntityResult

structure Availability where
  available : Bool
  reason : Option String
  /-- The share of the conditions that hold; zero without conditions. -/
  confidence : Float

def Availability.encode (a : Availability) : Json :=
  .obj [("available", .bool a.available), ("reason", Encode.optional .str a.reason),
    ("confidence", .float a.confidence)]

/-- An entry of a batch: conditions that were read, a pair of an identifier and conditions, or a
document. -/
inductive BatchEntry where
  | read (conditions : EntityConditionSet)
  | pair (parts : List Json)
  | document (j : Json)

def EntryFault.message : EntryFault → String
  | faults count =>
    toString count ++ " validation error" ++ (if count = 1 then "" else "s") ++
      " for EntityConditionSet"
  | tooShort => "tuple index out of range"
  | notAList type => "'" ++ type ++ "' object is not iterable"

def ProcessingError.message : ProcessingError → String
  | condition why => why.report
  | invalidState count => "Invalid game state: " ++ toString count ++ " validation error(s)"
  | invalidEntry why => "Invalid entry: " ++ why.message

/-- The number of faults of a refusal. -/
def Refusal.count : Refusal → Nat
  | .faults fs => fs.length
  | _ => 1

namespace EntityResult

def start (id : String) (kind : EntityKind) : EntityResult :=
  { id, kind := some kind, success := true, evaluated := 0, passed := 0, failed := 0
    errors := [], warnings := [] }

/-- Adds the outcome of one more condition. -/
def add (r : EntityResult) (o : Outcome) : EntityResult :=
  { r with
    success := r.success && o.result
    evaluated := r.evaluated + 1
    passed := r.passed + if o.result then 1 else 0
    failed := r.failed + if o.result then 0 else 1
    errors := r.errors ++ o.errors.map .condition
    warnings := r.warnings ++ o.warnings }

/-- The result for an entity whose game state cannot be read: all conditions count as failed. -/
def withoutState (id : String) (kind : EntityKind) (conditions : Nat) (why : Refusal) :
    EntityResult :=
  { id, kind := some kind, success := false, evaluated := conditions, passed := 0
    failed := conditions, errors := [.invalidState why.count], warnings := [] }

/-- The result for an entry that cannot be read. -/
def withoutEntry (id : String) (why : EntryFault) : EntityResult :=
  { id, kind := none, success := false, evaluated := 0, passed := 0, failed := 0
    errors := [.invalidEntry why], warnings := [] }

def encode (r : EntityResult) : Json :=
  .obj [("success", .bool r.success), ("entity_id", .str r.id),
    ("entity_type", Encode.optional Encode.word r.kind),
    ("conditions", .obj [("evaluated", .int r.evaluated), ("passed", .int r.passed),
      ("failed", .int r.failed)]),
    ("errors", Encode.list (.str ·.message) r.errors),
    ("warnings", Encode.list (.str ·.message) r.warnings)]

end EntityResult

namespace BatchResult

def total (b : BatchResult) : Nat := b.results.length

def successful (b : BatchResult) : Nat := b.results.countP (·.success)

def failed (b : BatchResult) : Nat := b.total - b.successful

/-- The errors of all entities, each with the entity it belongs to. -/
def errors (b : BatchResult) : List String :=
  b.results.flatMap fun r => r.errors.map fun e => "Entity " ++ r.id ++ ": " ++ e.message

def encode (b : BatchResult) : Json :=
  .obj [("total", .int b.total), ("successful", .int b.successful), ("failed", .int b.failed),
    ("results", Encode.list EntityResult.encode b.results),
    ("errors", Encode.list .str b.errors)]

end BatchResult

namespace BatchEntry

/-- The identifier that the entry of a batch is reported under when it cannot be read. -/
def nominalId : BatchEntry → String
  | .document (.obj ms) =>
    match Members.get? ms "entity_id", Members.get? ms "entityId" with
    | some j, _ => j.message
    | none, some j => j.message
    | none, none => ""
  | _ => ""

def readSet (j : Json) : Except EntryFault EntityConditionSet :=
  match EntityConditionSet.decode j with
  | .ok s => .ok s
  | .refused why => .error (.faults why.count)

/-- Reads an entry. -/
def read? : BatchEntry → Except EntryFault EntityConditionSet
  | .read s => .ok s
  | .document j => readSet j
  | .pair (id :: conditions :: _) =>
    match conditions.elements? with
    | some items => readSet (.obj [("entity_id", id), ("conditions", .arr items)])
    | none => .error (.notAList conditions.typeName)
  | .pair _ => .error .tooShort

end BatchEntry

namespace Evaluator

/-- Evaluates conditions one after another. -/
def evaluateAll (ctx : EvaluationContext) :
    List (Option Condition) → EntityResult → Evaluator → EntityResult × Evaluator
  | [], r, ev => (r, ev)
  | c :: rest, r, ev =>
    let (o, ev) := ev.evaluateRead ctx c
    evaluateAll ctx rest (r.add o) ev

/-- Evaluates all conditions of an entity; conditions that cannot be read are false. -/
def process (ev : Evaluator) (id : String) (kind : Option EntityKind) (metadata : Members Json)
    (conditions : List (Option Condition)) (state : Decoded GameState) :
    EntityResult × Evaluator :=
  let kind := kind.getD (.infer id)
  match state with
  | .refused why => (.withoutState id kind conditions.length why, ev)
  | .ok state =>
    evaluateAll { state, entityId := id, kind := some kind, metadata } conditions (.start id kind) ev

/-- Processes an entry of a batch. -/
def processEntry (ev : Evaluator) (state : Decoded GameState) (entry : BatchEntry) :
    EntityResult × Evaluator :=
  match entry.read? with
  | .error why => (.withoutEntry entry.nominalId why, ev)
  | .ok s => ev.process s.entityId s.kind [] (s.conditions.map some) state

/-- Processes entries one after another. -/
def processAll (state : Decoded GameState) :
    List BatchEntry → Evaluator → List EntityResult × Evaluator
  | [], ev => ([], ev)
  | entry :: rest, ev =>
    let (r, ev) := ev.processEntry state entry
    let (rs, ev) := processAll state rest ev
    (r :: rs, ev)

end Evaluator

namespace RuleEngine

/-- The conditions of a document as they can be read. -/
def readConditions (items : List Json) : List (Option Condition) :=
  items.map fun j => (Condition.decode j).toOption

/-- Evaluates conditions that are given by documents for an entity. -/
def evaluateEntity (e : RuleEngine) (id : String) (conditions : List Json) (state : Json)
    (kind : Option EntityKind) (metadata : Members Json) : EntityResult × RuleEngine :=
  let (r, evaluator) :=
    e.evaluator.process id kind metadata (readConditions conditions) (GameState.decode state)
  (r, { e with evaluator })

/-- Processes a batch. The results stand in the order of the entries. -/
def processBatch (e : RuleEngine) (entries : List BatchEntry) (state : Decoded GameState) :
    BatchResult × RuleEngine :=
  let (results, evaluator) := Evaluator.processAll state entries e.evaluator
  ({ results }, { e with evaluator })

/-- Why an entity is not available: its first error, or how many conditions do not hold. -/
def reason (r : EntityResult) : Option String :=
  match r.errors with
  | error :: _ => some error.message
  | [] =>
    if r.success then none
    else some (toString r.failed ++ " of " ++ toString r.evaluated ++ " conditions not met")

def availabilityOf (r : EntityResult) : Availability :=
  { available := r.success, reason := reason r
    confidence :=
      if r.evaluated = 0 then 0 else Binary64.ofFraction false r.passed r.evaluated }

/-- Tells whether an entity is available. -/
def availability (e : RuleEngine) (id : String) (conditions : List Json) (state : Json) :
    Availability × RuleEngine :=
  let (r, e) := e.evaluateEntity id conditions state none []
  (availabilityOf r, e)

end RuleEngine

end EntityRules
