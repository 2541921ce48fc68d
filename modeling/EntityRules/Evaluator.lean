import EntityRules.Evaluation.Tree

/-! The evaluator: registered functions, the random source, and counts of what was evaluated. -/

namespace EntityRules

structure Evaluator where
  functions : FunctionTable := BuiltIn.table
  source : RandomSource := {}
  evaluations : Nat := 0
  errors : Nat := 0
  warnings : Nat := 0
  /-- The calls of registered functions, the latest one last. -/
  calls : List FunctionCall := []

namespace Evaluator

/-- Gives a function a name. A name that is taken can only be given again on purpose; the error is
the name. -/
def register (e : Evaluator) (name : String) (body : FunctionBody) (replace : Bool) :
    Except String Evaluator :=
  if Members.has e.functions name && !replace then .error name
  else .ok { e with functions := Members.put e.functions name ⟨body, false⟩ }

/-- The message about a name that is taken. -/
def takenMessage (name : String) : String :=
  "Condition function '" ++ name ++ "' is already registered"

/-- The names of all functions, sorted. -/
def functionNames (e : Evaluator) : List String :=
  (Members.names e.functions).mergeSort fun a b => decide (a ≤ b)

/-- The counts of what was evaluated, and of the functions. -/
def statistics (e : Evaluator) : Json :=
  .obj [("evaluations", .int e.evaluations), ("errors", .int e.errors),
    ("warnings", .int e.warnings), ("registered_functions", .int e.functions.length)]

/-- Notes an outcome. -/
def note (e : Evaluator) (o : Outcome) : Evaluator :=
  { e with
    evaluations := e.evaluations + 1
    errors := e.errors + o.errors.length
    warnings := e.warnings + o.warnings.length
    calls := e.calls ++ o.calls }

/-- Evaluates a condition with the evaluator's own random source. -/
def evaluate (e : Evaluator) (ctx : EvaluationContext) (c : Condition) : Outcome × Evaluator :=
  let o := c.evaluate e.functions ctx e.source
  (o, { e.note o with source := o.source })

/-- Evaluates a document with the evaluator's own random source. -/
def evaluateDocument (e : Evaluator) (ctx : EvaluationContext) (j : Json) : Outcome × Evaluator :=
  let o := Condition.evaluateDocument e.functions ctx j e.source
  (o, { e.note o with source := o.source })

/-- Evaluates a condition that may have been unreadable. -/
def evaluateRead (e : Evaluator) (ctx : EvaluationContext) (c : Option Condition) :
    Outcome × Evaluator :=
  match c with
  | some c => e.evaluate ctx c
  | none =>
    let o := Outcome.warned .malformed e.source
    (o, e.note o)

/-- Evaluates a document with a random source that comes with the context. -/
def evaluateDrawing (e : Evaluator) (ctx : EvaluationContext) (j : Json) (source : RandomSource) :
    Outcome × Evaluator :=
  let o := Condition.evaluateDocument e.functions ctx j source
  (o, e.note o)

end Evaluator

end EntityRules
