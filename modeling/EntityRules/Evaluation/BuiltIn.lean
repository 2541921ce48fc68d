import EntityRules.Evaluation.Parameters

/-! The functions that come with the engine. -/

namespace EntityRules.BuiltIn

open Parameters

/-- Compares the distance of two places, which is zero or one: places have names only. The player
is where its location is. -/
def checkDistance (ps : Members Json) (ctx : EvaluationContext) : Except Trouble Bool := do
  let origin := Value.ofJson (← require ps "distance" "from")
  let destination := Value.ofJson (← require ps "distance" "to")
  let threshold ← requireNumber ps "distance" "value"
  let op ← requireComparison ps "distance" .null
  let near :=
    Value.same origin destination ||
      (Value.same origin (.str "player") &&
        Value.same (.str ctx.state.player.location) destination)
  Value.compare (.int (if near then 0 else 1)) op (.float threshold)

/-- Whether the player owns a quantity of an item, one by default. -/
def checkItem (ps : Members Json) (ctx : EvaluationContext) : Except Trouble Bool := do
  let item := Value.ofJson (← require ps "has_item" "item_id")
  match ← number? ((ps.get? "quantity").getD (.int 1)) with
  | none => throw .quantityNotNumber
  | some quantity =>
    let owned := (ctx.state.player.items.filter fun i => Value.same (.str i) item).length
    return isAtLeast owned quantity

/-- Compares the player's standing with someone, zero when there is none. -/
def checkRelationship (ps : Members Json) (ctx : EvaluationContext) : Except Trouble Bool := do
  let npc := Value.ofJson (← require ps "relationship_level" "npc_id")
  let threshold ← requireNumber ps "relationship_level" "value"
  let op ← requireComparison ps "relationship_level" .null
  let level ← lookUp ctx.state.player.relationships npc
  Value.compare ((level.map Value.float).getD (.int 0)) op (.float threshold)

/-- Whether the time of day is in a window, which may go past midnight. -/
def checkTime (ps : Members Json) (ctx : EvaluationContext) : Except Trouble Bool := do
  let start ← requireNumber ps "time_between" "start"
  let finish ← requireNumber ps "time_between" "end"
  let now := ctx.state.world.hour
  return if start ≤ finish then start ≤ now && now ≤ finish else start ≤ now || now ≤ finish

/-- The chance that a probability names. -/
def chanceOf (ps : Members Json) : Except Trouble Float := requireNumber ps "probability" "chance"

def rollProbability (ps : Members Json) (source : RandomSource) :
    Except Trouble Bool × RandomSource :=
  match chanceOf ps with
  | .error t => (.error t, source)
  | .ok chance =>
    let (x, source) := source.fraction
    (.ok (x < chance), source)

/-- A roll of dice as its parameters describe it. -/
structure Roll where
  dice : Nat
  sides : Int
  target : Float
  op : Comparison

def rollOf (ps : Members Json) : Except Trouble Roll := do
  let dice ← wholeOf (← requireNumber ps "dice_roll" "dice")
  let sides ← wholeOf (← requireNumber ps "dice_roll" "sides")
  let target ← requireNumber ps "dice_roll" "target"
  let op ← requireComparison ps "dice_roll" (.str "greater_equal")
  if dice < 0 || sides < 1 then throw (.diceOutOfRange dice sides)
  return { dice := dice.toNat, sides, target, op }

def rollDice (ps : Members Json) (source : RandomSource) : Except Trouble Bool × RandomSource :=
  match rollOf ps with
  | .error t => (.error t, source)
  | .ok roll =>
    let (total, source) := source.dice roll.sides roll.dice
    (Value.compare (.int total) roll.op (.float roll.target), source)

def body : BuiltIn → FunctionBody
  | .distance => fun ps ctx source => (checkDistance ps ctx, source)
  | .hasItem => fun ps ctx source => (checkItem ps ctx, source)
  | .relationshipLevel => fun ps ctx source => (checkRelationship ps ctx, source)
  | .timeBetween => fun ps ctx source => (checkTime ps ctx, source)
  | .probability => fun ps _ source => rollProbability ps source
  | .diceRoll => fun ps _ source => rollDice ps source

/-- The functions of an engine without registered ones. -/
def table : FunctionTable :=
  (Vocabulary.all : List BuiltIn).map fun f => (Vocabulary.name f, ⟨f.body, true⟩)

end EntityRules.BuiltIn
