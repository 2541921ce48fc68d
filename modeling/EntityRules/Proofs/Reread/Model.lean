import EntityRules.Layers
import EntityRules.Proofs.Reread.Holding

/-! The models of the engine. -/

namespace EntityRules

open Decode

/-- How the values of a model are read, at a given time, and written, and when they count as
equal. -/
structure Form (α : Type) where
  read : Moment → Json → Decoded α
  write : α → Json
  /-- How deep the documents go that a value holds as they are. -/
  layers : α → Nat := fun _ => 0
  Same : α → α → Prop := Eq

namespace Form

variable {α : Type} {f : Form α}

/-- The document of a value; a value that goes too deep is not written. -/
def dump (f : Form α) (x : α) : Option Json :=
  if f.layers x ≤ Json.mostLayers then some (f.write x) else none

/-- The models of the engine. States count as equal if they are equal once their times are given: a
time that was not given equals zero. -/
inductive IsModel : {α : Type} → Form α → Prop
  | condition :
    IsModel {
      read := fun _ => Condition.decode, write := Condition.encode, layers := Condition.layers }
  | entityRequirements :
    IsModel { read := fun _ => EntityRequirements.decode, write := fun r => r.view.dump }
  | resourceRequirements :
    IsModel { read := fun _ => ResourceRequirements.decode, write := fun r => r.view.dump }
  | entityRecord :
    IsModel {
      read := fun _ => EntityRecord.decode, write := EntityRecord.encode
      layers := EntityRecord.layers }
  | priorityRange :
    IsModel { read := fun _ => PriorityRange.decode, write := PriorityRange.encode }
  | timeConstraints :
    IsModel { read := fun _ => TimeConstraints.decode, write := TimeConstraints.encode }
  | scoreRange : IsModel { read := fun _ => ScoreRange.decode, write := ScoreRange.encode }
  | minimumBound : IsModel { read := fun _ => MinimumBound.decode, write := MinimumBound.encode }
  | difficultyMatch :
    IsModel { read := fun _ => DifficultyMatch.decode, write := DifficultyMatch.encode }
  | softBounds : IsModel { read := fun _ => SoftBounds.decode, write := SoftBounds.encode }
  | queryFilter :
    IsModel {
      read := fun _ => QueryFilter.decode, write := QueryFilter.encode
      layers := QueryFilter.layers }
  | queryOptions : IsModel { read := fun _ => QueryOptions.decode, write := QueryOptions.encode }
  | entityConditionSet :
    IsModel {
      read := fun _ => EntityConditionSet.decode, write := EntityConditionSet.encode
      layers := EntityConditionSet.layers }
  | playerState : IsModel { read := fun _ => PlayerState.decode, write := fun p => p.view.dump }
  | worldState :
    IsModel {
      read := fun _ => WorldState.decode, write := fun w => w.view.dump
      Same := fun w v => w.timed = v.timed }
  | sessionState : IsModel { read := fun _ => SessionState.decode, write := fun s => s.view.dump }
  | storyState : IsModel { read := fun _ => StoryState.decode, write := fun s => s.view.dump }
  | recentEvent : IsModel { read := fun _ => RecentEvent.decode, write := fun e => e.view.dump }
  | gameState :
    IsModel {
      read := fun _ => GameState.decode, write := GameState.encode
      Same := fun s t => s.timed = t.timed }
  | relationshipMetadata :
    IsModel { read := RelationshipMetadata.decode, write := RelationshipMetadata.encode }
  | relationship :
    IsModel {
      read := Relationship.decode, write := Relationship.encode, layers := Relationship.layers }
  | graphMetadata : IsModel { read := GraphMetadata.decode, write := GraphMetadata.encode }
  | graphSnapshot :
    IsModel {
      read := GraphSnapshot.decode, write := GraphSnapshot.encode, layers := GraphSnapshot.layers }
  | relevanceWeights :
    IsModel { read := fun _ => RelevanceWeights.decode, write := RelevanceWeights.encode }
  | ruleDocument :
    IsModel {
      read := RuleDocument.decode, write := RuleDocument.encode, layers := RuleDocument.layers }

/-- What was read is written so that reading it at another time gives an equal value, which goes as
deep and is written alike. -/
def Stable (f : Form α) : Prop :=
  ∀ now later source x, f.read now source = .ok x →
    ∃ y, f.read later (f.write x) = .ok y ∧ f.Same y x ∧ f.layers y = f.layers x ∧
      f.write y = f.write x

/-- Values that are read back as they are make a form stable. -/
theorem stable_of_rereads {read : Moment → Json → Decoded α} {write : α → Json} {layers : α → Nat}
    (h : ∀ now later, Rereads (read now) (read later) write) :
    Stable { read := read, write := write, layers := layers } :=
  fun now later source x hx => ⟨x, h now later source x hx, rfl, rfl, rfl⟩

theorem IsModel.stable (h : f.IsModel) : f.Stable := by
  cases h with
  | condition => exact stable_of_rereads fun _ _ => Condition.rereads
  | entityRequirements => exact stable_of_rereads fun _ _ => EntityRequirements.restores.rereads
  | resourceRequirements => exact stable_of_rereads fun _ _ => ResourceRequirements.restores.rereads
  | entityRecord => exact stable_of_rereads fun _ _ => EntityRecord.rereads
  | priorityRange => exact stable_of_rereads fun _ _ => PriorityRange.restores.rereads
  | timeConstraints => exact stable_of_rereads fun _ _ => TimeConstraints.restores.rereads
  | scoreRange => exact stable_of_rereads fun _ _ => ScoreRange.restores.rereads
  | minimumBound => exact stable_of_rereads fun _ _ => MinimumBound.restores.rereads
  | difficultyMatch => exact stable_of_rereads fun _ _ => DifficultyMatch.restores.rereads
  | softBounds => exact stable_of_rereads fun _ _ => SoftBounds.restores.rereads
  | queryFilter => exact stable_of_rereads fun _ _ => QueryFilter.rereads
  | queryOptions => exact stable_of_rereads fun _ _ => QueryOptions.restores.rereads
  | entityConditionSet => exact stable_of_rereads fun _ _ => EntityConditionSet.rereads
  | playerState => exact stable_of_rereads fun _ _ => PlayerState.restores.rereads
  | worldState => exact fun _ _ _ w _ => ⟨w.timed, w.decode_dump, rfl, rfl, w.dump_timed⟩
  | sessionState => exact stable_of_rereads fun _ _ => SessionState.restores.rereads
  | storyState => exact stable_of_rereads fun _ _ => StoryState.restores.rereads
  | recentEvent => exact stable_of_rereads fun _ _ => RecentEvent.restores.rereads
  | gameState => exact fun _ _ _ s _ => ⟨s.timed, s.decode_encode, rfl, rfl, s.encode_timed⟩
  | relationshipMetadata =>
    exact stable_of_rereads fun _ later => (RelationshipMetadata.restores later).rereads
  | relationship => exact stable_of_rereads Relationship.rereads
  | graphMetadata => exact stable_of_rereads fun _ later => (GraphMetadata.restores later).rereads
  | graphSnapshot => exact stable_of_rereads GraphSnapshot.rereads
  | relevanceWeights => exact stable_of_rereads fun _ _ => RelevanceWeights.rereads
  | ruleDocument => exact stable_of_rereads RuleDocument.rereads

namespace Sample

def evening : Moment := ⟨⟨2026, 3, 1, 18, 30, 0, 0, none⟩, by decide⟩

/-- A composition with a remark, around a condition of unknown type. -/
def source : Json := .obj [
  ("remark", .int 1), ("type", .str "compound"), ("operator", .str "and"),
  ("conditions", .arr [.obj [("is", .str "rain"), ("type", .str "weather")]])]

def condition : Condition :=
  .compound ⟨none, none, none, [("remark", .int 1)]⟩ "and"
    [.unknown ⟨none, none, none, [("is", .str "rain")]⟩ (.str "weather")]

def document : Json := .obj [
  ("id", .null), ("description", .null), ("priority", .null), ("type", .str "compound"),
  ("operator", .str "and"),
  ("conditions", .arr [.obj [
    ("id", .null), ("description", .null), ("priority", .null), ("type", .str "weather"),
    ("is", .str "rain")]]),
  ("remark", .int 1)]

end Sample

/-- An empty list with lists around it. -/
def nested : Nat → Json
  | 0 => .arr []
  | n + 1 => .arr [nested n]

theorem layers_nested (n : Nat) : (nested n).layers = n + 1 := by
  induction n with
  | zero => rfl
  | succ n ih => simp [nested, Json.layers, Json.layersOfItems, ih, Nat.add_comm]

namespace Sample

/-- A filter by one condition, the literal of which goes as deep as any that can be written. -/
def deepSource : Json := .obj [("conditions", .arr [.obj [
  ("type", .str "simple"), ("field", .str "player.level"), ("operator", .str "equals"),
  ("value", nested 254)]])]

def deepFilter : QueryFilter :=
  { conditions := some [.simple ⟨none, none, none, []⟩ "player.level" "equals" (nested 254)] }

end Sample

end Form

end EntityRules
