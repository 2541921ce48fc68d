import EntityRules.Entity
import EntityRules.Number.Extent
import EntityRules.Query.Filter
import EntityRules.State
import EntityRules.Weights

/-! The relevance of an entity for a query: a weighted sum of five factors, from zero to one. -/

namespace EntityRules

structure ScoringRules (α : Type) where
  weights : RelevanceWeights α
  /-- The priority that counts fully. -/
  priorityScale : Extent α
  /-- The number of levels over which a level that is off counts less and less. -/
  levelWindow : Extent α

namespace ScoringRules

variable {α : Type} [Scalar α]

/-- The share of the full priority; nothing counts when the scale is not above zero. -/
def priorityFactor (rules : ScoringRules α) (priority : α) : Except ExtentTrouble α :=
  rules.priorityScale.isPositive.bind fun positive =>
    if positive then rules.priorityScale.scalar.map fun scale => Scalar.clamp (priority / scale)
    else .ok 0

/-- The tags that are wanted and there, each once. -/
def sharedTags (wanted tags : List String) : List String :=
  wanted.eraseDups.filter (tags.contains ·)

/-- The share of the wanted tags that an entity has. -/
def tagFactor (wanted : Option (List String)) (tags : List String) : α :=
  match wanted with
  | none | some [] => 0
  | some wanted =>
    Scalar.count (sharedTags wanted tags).length / Scalar.count wanted.eraseDups.length

/-- Whether an entity is where the query wants it. -/
def locationFactor (wanted location : Option String) : α :=
  match wanted with
  | none | some "" => 0
  | some place => if location = some place then 1 else 0

/-- How near the required level is to the player's. The window is at least one level. -/
def levelFactor (rules : ScoringRules α) (required : Option Int) (level : Int) :
    Except ExtentTrouble α :=
  let distance := ((required.getD level) - level).natAbs
  rules.levelWindow.atLeastOne.bind fun window =>
    (window.shareLeft distance).map (Scalar.max 0)

/-- How much an entity matters to the story, if there is one. -/
def storyFactor (relevance : Option α) (story : Option StoryState) : α :=
  match relevance, story with
  | some r, some _ => Scalar.clamp r
  | _, _ => 0

/-- The relevance of an entity. -/
def score (rules : ScoringRules α) (filter : QueryFilter) (state : GameState)
    (e : EntityRecord α) : Except ExtentTrouble α := do
  let priority ← rules.priorityFactor e.priority
  let level ← rules.levelFactor e.requiredLevel state.player.level
  let w := rules.weights
  return Scalar.clamp
    (w.priority * priority + w.tags * tagFactor filter.tags e.tags +
      w.location * locationFactor filter.location e.location + w.level * level +
      w.story * storyFactor e.storyRelevance state.story)

end ScoringRules

end EntityRules
