import EntityRules.Evaluation.BuiltIn
import EntityRules.Evaluation.Category
import EntityRules.Value.Path

/-! Evaluating conditions. -/

namespace EntityRules.Condition

/-- Compares what a path names in the game state with a literal. -/
def evaluateSimple (ctx : EvaluationContext) (path operator : String) (value : Json)
    (source : RandomSource) : Outcome :=
  match Vocabulary.ofName? operator with
  | none => .warned (.unknownOperator operator) source
  | some op =>
    .ofCheck ((ctx.state.view.resolve path).bind fun actual =>
      actual.compare op (.ofJson value)) source

/-- Calls a function by name; a call of a registered function is recorded. -/
def evaluateFunction (table : FunctionTable) (ctx : EvaluationContext) (name : String)
    (parameters : Members Json) (source : RandomSource) : Outcome :=
  match Members.get? table name with
  | none => .warned (.unknownFunction name) source
  | some f =>
    let (check, source) := f.body parameters ctx source
    let calls := if f.isBuiltIn then [] else [⟨name, parameters, ctx.entityId⟩]
    { Outcome.ofCheck check source with calls }

def evaluateContextual (ctx : EvaluationContext) (category : String) (data : Members Json)
    (source : RandomSource) : Outcome :=
  match Vocabulary.ofName? category with
  | none => .warned (.unknownCategory category) source
  | some type => .ofCheck (ContextType.check type data ctx) source

mutual

def evaluate (table : FunctionTable) (ctx : EvaluationContext) :
    Condition → RandomSource → Outcome
  | .simple _ path operator value, source => evaluateSimple ctx path operator value source
  | .compound _ operator children, source =>
    match (Vocabulary.ofName? operator : Option Connective) with
    | none => .warned (.unknownConnective operator) source
    | some .not => evaluateNegation table ctx children source
    | some .and =>
      if children.isEmpty then .quiet false source else evaluateAll table ctx children source
    | some .or => evaluateAny table ctx children source
  | .function _ name parameters, source => evaluateFunction table ctx name parameters source
  | .contextual _ category data, source => evaluateContextual ctx category data source
  | .unknown _ type, source => .warned (.unknownType type) source

/-- The negation of a single condition; there has to be exactly one. -/
def evaluateNegation (table : FunctionTable) (ctx : EvaluationContext) :
    List Condition → RandomSource → Outcome
  | [c], source => (evaluate table ctx c source).negated
  | [], source => .failed (.negationOfMany 0) source
  | _ :: _ :: rest, source => .failed (.negationOfMany (rest.length + 2)) source

/-- Evaluates conditions up to the first that is false. -/
def evaluateAll (table : FunctionTable) (ctx : EvaluationContext) :
    List Condition → RandomSource → Outcome
  | [], source => .quiet true source
  | c :: rest, source =>
    let first := evaluate table ctx c source
    if first.result then first.after (evaluateAll table ctx rest first.source) else first

/-- Evaluates conditions up to the first that is true. -/
def evaluateAny (table : FunctionTable) (ctx : EvaluationContext) :
    List Condition → RandomSource → Outcome
  | [], source => .quiet false source
  | c :: rest, source =>
    let first := evaluate table ctx c source
    if first.result then first else first.after (evaluateAny table ctx rest first.source)

end

/-- Evaluates a document as a condition; one that cannot be read is false with a warning. -/
def evaluateDocument (table : FunctionTable) (ctx : EvaluationContext) (document : Json)
    (source : RandomSource) : Outcome :=
  match decode document with
  | .ok c => evaluate table ctx c source
  | .refused _ => .warned .malformed source

end EntityRules.Condition
