import EntityRules.Evaluation.Parameters

/-! The checks of contextual conditions. -/

namespace EntityRules.ContextType

open Parameters

/-- Whether a required phase, or the one that an alias stands for, is the current one. -/
def isPhase (required : Json) (current : SessionPhase) : Except Trouble Bool := do
  match ← Value.key (.ofJson required) with
  | .str s =>
    let wanted := ((SessionPhase.ofAlias? s).map Vocabulary.name).getD s
    return wanted = Vocabulary.name current
  | _ => return false

/-- Whether a flag of the story is set. -/
def isSet (flags : Members Bool) (flag : Value) : Except Trouble Bool :=
  (lookUp flags flag).map (·.getD false)

def checkStory (data : Members Json) (ctx : EvaluationContext) : Except Trouble Bool := do
  let required := get data "required_phase"
  let fits ← if required.truthy then isPhase required ctx.state.session.phase else pure true
  if fits then every (isSet ctx.state.world.flags) (← listed (get data "story_flags"))
  else return false

/-- The first of two documents that is not empty. -/
def scoresOf (metadata : Members Json) : Json :=
  let first := get metadata "behavior_scores"
  let second := get metadata "playerBehaviorScore"
  if first.truthy then first else if second.truthy then second else .obj []

/-- Compares the player's score for a pattern of behaviour with a threshold; no score is zero. -/
def checkBehavior (data : Members Json) (ctx : EvaluationContext) : Except Trouble Bool := do
  let pattern ← require data "player_behavior" "behavior_pattern"
  let threshold ← requireNumber data "player_behavior" "threshold"
  match scoresOf ctx.metadata with
  | .obj scores =>
    let score ← match ← lookUp scores (.ofJson pattern) with
      | some j => number? j
      | none => pure none
    return threshold ≤ score.getD 0.0
  | j => throw (.scoresNotMapping j.typeName)

/-- Whether all required events are in the world and its weather is among those allowed. -/
def checkWorld (data : Members Json) (ctx : EvaluationContext) : Except Trouble Bool := do
  let world := ctx.state.world
  let happened (event : Value) : Except Trouble Bool :=
    .ok (world.events.any fun e => Value.same (.str e) event)
  let fits ← every happened (← listed (get data "required_events"))
  let allowed := get data "weather_conditions"
  if fits && allowed.truthy then hasText allowed world.weather else return fits

/-- Whether a turn is in a range, each end of which may be absent. -/
def isInRange (turn : Int) (range : Members Json) : Except Trouble Bool := do
  let low ← number? (get range "min")
  let high ← number? (get range "max")
  let below := low.any fun x => Binary64.compareInt turn x = some .lt
  let above := high.any fun x => Binary64.compareInt turn x = some .gt
  return !below && !above

/-- Whether the location of the session has a text as a part; no text asks for nothing. -/
def isPlace (location : String) (wanted : Json) : Except Trouble Bool :=
  if !wanted.truthy then .ok true
  else
    match wanted with
    | .str s => .ok (Value.isPart s.toList location.toList)
    | j => .error (.notAPart j.typeName)

def checkSession (data : Members Json) (ctx : EvaluationContext) : Except Trouble Bool := do
  let session := ctx.state.session
  let range := get data "turn_range"
  let inRange ← match range with
    | .obj range => isInRange session.turn range
    | j => if j.truthy then throw .turnRangeNotMapping else pure true
  if !inRange then return false
  let present (npc : Value) : Except Trouble Bool :=
    .ok (session.npcsPresent.any fun n => Value.same (.str n) npc)
  if ← every present (← listed (get data "required_npcs")) then
    isPlace session.location (get data "location_type")
  else return false

def check : ContextType → Members Json → EvaluationContext → Except Trouble Bool
  | .storyPhase => checkStory
  | .playerBehavior => checkBehavior
  | .worldState => checkWorld
  | .sessionContext => checkSession

end EntityRules.ContextType
