import EntityRules.Condition
import EntityRules.Random
import EntityRules.State
import EntityRules.Trouble

/-! What evaluating a condition reads, and what comes of it. -/

namespace EntityRules

/-- Everything that a condition may look at. -/
structure EvaluationContext where
  state : GameState
  entityId : String := ""
  kind : Option EntityKind := none
  metadata : Members Json := []

/-- What makes a condition false without being an error. -/
inductive Warning where
  | unknownType (type : Json)
  | unknownOperator (name : String)
  | unknownConnective (name : String)
  | unknownFunction (name : String)
  | unknownCategory (name : String)
  | malformed

def Warning.message : Warning → String
  | unknownType type => "Unknown condition type: condition_type=" ++ type.message
  | unknownOperator name => "Unknown operator: operator=" ++ name
  | unknownConnective name => "Unknown compound operator: operator=" ++ name
  | unknownFunction name => "Unknown function: function_name=" ++ name
  | unknownCategory name => "Unknown context type: context_type=" ++ name
  | malformed => "Malformed condition document: error=" ++ Condition.malformed

/-- The message of an error that kept a condition from being evaluated. -/
def Trouble.report (t : Trouble) : String := "Condition evaluation failed: " ++ t.message

/-- A call of a registered function. -/
structure FunctionCall where
  name : String
  parameters : Members Json
  entityId : String

/-- What a condition function computes: it reads its parameters and the context, and may draw
random numbers. -/
abbrev FunctionBody :=
  Members Json → EvaluationContext → RandomSource → Except Trouble Bool × RandomSource

structure ConditionFunction where
  body : FunctionBody
  /-- Calls of functions that come with the engine are not recorded. -/
  isBuiltIn : Bool

/-- The functions that conditions can call, by name. -/
abbrev FunctionTable := Members ConditionFunction

/-- What came of evaluating a condition, and what is left of the random source. -/
structure Outcome where
  result : Bool
  errors : List Trouble := []
  warnings : List Warning := []
  calls : List FunctionCall := []
  source : RandomSource

namespace Outcome

def quiet (result : Bool) (source : RandomSource) : Outcome := { result, source }

def failed (t : Trouble) (source : RandomSource) : Outcome :=
  { result := false, errors := [t], source }

def warned (w : Warning) (source : RandomSource) : Outcome :=
  { result := false, warnings := [w], source }

/-- The result of a check that draws nothing. -/
def ofCheck (check : Except Trouble Bool) (source : RandomSource) : Outcome :=
  match check with
  | .ok b => quiet b source
  | .error t => failed t source

/-- Puts what came of an earlier condition in front of an outcome. -/
def after (first next : Outcome) : Outcome :=
  { next with
    errors := first.errors ++ next.errors
    warnings := first.warnings ++ next.warnings
    calls := first.calls ++ next.calls }

def negated (o : Outcome) : Outcome := { o with result := !o.result }

def encode (o : Outcome) : Json :=
  .obj [("result", .bool o.result), ("errors", Encode.list (.str ·.report) o.errors),
    ("warnings", Encode.list (.str ·.message) o.warnings)]

end Outcome

end EntityRules
