/-! The closed vocabularies of the engine. -/

namespace EntityRules

/-- A finite list of words with names. -/
class Vocabulary (α : Type) where
  all : List α
  name : α → String

namespace Vocabulary

variable {α : Type} [Vocabulary α]

/-- The word with a given name. -/
def ofName? (text : String) : Option α := (all : List α).find? (name · = text)

theorem name_of_ofName? {text : String} {w : α} (h : ofName? text = some w) : name w = text := by
  simpa using List.find?_some h

end Vocabulary

/-- What kind of content an entity is. -/
inductive EntityKind where
  | item
  | quest
  | event
  | npc
  | enemy
deriving DecidableEq, Repr

instance : Vocabulary EntityKind where
  all := [.item, .quest, .event, .npc, .enemy]
  name
    | .item => "item"
    | .quest => "quest"
    | .event => "event"
    | .npc => "npc"
    | .enemy => "enemy"

/-- The kind that an identifier names by its beginning, such as `quest_`; an item otherwise. -/
def EntityKind.infer (id : String) : EntityKind :=
  ((Vocabulary.all : List EntityKind).find? fun k =>
    (Vocabulary.name k ++ "_").toList.isPrefixOf id.toList).getD .item

/-- The operators of comparisons. -/
inductive Comparison where
  | equals
  | notEquals
  | greaterThan
  | lessThan
  | greaterEqual
  | lessEqual
  | contains
  | notContains
  | isIn
  | notIn
deriving DecidableEq, Repr

instance : Vocabulary Comparison where
  all := [.equals, .notEquals, .greaterThan, .lessThan, .greaterEqual, .lessEqual, .contains,
    .notContains, .isIn, .notIn]
  name
    | .equals => "equals"
    | .notEquals => "not_equals"
    | .greaterThan => "greater_than"
    | .lessThan => "less_than"
    | .greaterEqual => "greater_equal"
    | .lessEqual => "less_equal"
    | .contains => "contains"
    | .notContains => "not_contains"
    | .isIn => "in"
    | .notIn => "not_in"

/-- The operators that join conditions. -/
inductive Connective where
  | and
  | or
  | not
deriving DecidableEq, Repr

instance : Vocabulary Connective where
  all := [.and, .or, .not]
  name
    | .and => "and"
    | .or => "or"
    | .not => "not"

/-- The condition functions that every engine knows. -/
inductive BuiltIn where
  | distance
  | hasItem
  | relationshipLevel
  | timeBetween
  | probability
  | diceRoll
deriving DecidableEq, Repr

instance : Vocabulary BuiltIn where
  all := [.distance, .hasItem, .relationshipLevel, .timeBetween, .probability, .diceRoll]
  name
    | .distance => "distance"
    | .hasItem => "has_item"
    | .relationshipLevel => "relationship_level"
    | .timeBetween => "time_between"
    | .probability => "probability"
    | .diceRoll => "dice_roll"

/-- Whether the outcome of a function depends on the random source. -/
def BuiltIn.isRandom : BuiltIn → Bool
  | .probability | .diceRoll => true
  | _ => false

/-- The derived categories that a contextual condition checks. -/
inductive ContextType where
  | storyPhase
  | playerBehavior
  | worldState
  | sessionContext
deriving DecidableEq, Repr

instance : Vocabulary ContextType where
  all := [.storyPhase, .playerBehavior, .worldState, .sessionContext]
  name
    | .storyPhase => "story_phase"
    | .playerBehavior => "player_behavior"
    | .worldState => "world_state"
    | .sessionContext => "session_context"

/-- What a session is about at the moment. -/
inductive SessionPhase where
  | exploration
  | combat
  | social
  | rest
deriving DecidableEq, Repr

instance : Vocabulary SessionPhase where
  all := [.exploration, .combat, .social, .rest]
  name
    | .exploration => "exploration"
    | .combat => "combat"
    | .social => "social"
    | .rest => "rest"

/-- The phase that a session mode of a caller stands for, when it is not a phase itself. -/
def SessionPhase.ofAlias? (mode : String) : Option SessionPhase :=
  if mode = "conversation" then some .social
  else if mode = "break" then some .rest
  else if mode = "planning" then some .exploration
  else none

/-- The types of relationships. -/
inductive RelationshipType where
  | dependency
  | prerequisite
  | conflict
  | synergy
  | sequence
  | alternative
deriving DecidableEq, Repr

instance : Vocabulary RelationshipType where
  all := [.dependency, .prerequisite, .conflict, .synergy, .sequence, .alternative]
  name
    | .dependency => "dependency"
    | .prerequisite => "prerequisite"
    | .conflict => "conflict"
    | .synergy => "synergy"
    | .sequence => "sequence"
    | .alternative => "alternative"

/-- Whether the source of a relationship depends on its target. -/
def RelationshipType.isDependency : RelationshipType → Bool
  | .dependency | .prerequisite => true
  | _ => false

/-- What is known about the defects of a graph. -/
inductive ValidationStatus where
  | valid
  | needsUpdate
  | invalid
deriving DecidableEq, Repr

instance : Vocabulary ValidationStatus where
  all := [.valid, .needsUpdate, .invalid]
  name
    | .valid => "valid"
    | .needsUpdate => "needs_update"
    | .invalid => "invalid"

/-- Paths by length. -/
inductive PathType where
  | direct
  | indirect
  | complex
deriving DecidableEq, Repr

instance : Vocabulary PathType where
  all := [.direct, .indirect, .complex]
  name
    | .direct => "direct"
    | .indirect => "indirect"
    | .complex => "complex"

/-- How much depends on an entity. -/
inductive ImpactLevel where
  | low
  | medium
  | high
  | critical
deriving DecidableEq, Repr

instance : Vocabulary ImpactLevel where
  all := [.low, .medium, .high, .critical]
  name
    | .low => "low"
    | .medium => "medium"
    | .high => "high"
    | .critical => "critical"

/-- The orders of query results. -/
inductive SortStrategy where
  | relevance
  | priority
  | timestamp
deriving DecidableEq, Repr

instance : Vocabulary SortStrategy where
  all := [.relevance, .priority, .timestamp]
  name
    | .relevance => "relevance"
    | .priority => "priority"
    | .timestamp => "timestamp"

/-- The facts about a game state that a query can ask for by name. -/
inductive ContextFactor where
  | storyAppropriate
  | playerReady
  | dramaticTiming
  | resourceAvailable
deriving DecidableEq, Repr

instance : Vocabulary ContextFactor where
  all := [.storyAppropriate, .playerReady, .dramaticTiming, .resourceAvailable]
  name
    | .storyAppropriate => "story_appropriate"
    | .playerReady => "player_ready"
    | .dramaticTiming => "dramatic_timing"
    | .resourceAvailable => "resource_available"

end EntityRules
