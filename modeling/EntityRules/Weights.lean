import EntityRules.Decode
import EntityRules.Number.Scalar

/-! The weights of the parts of a relevance score. -/

namespace EntityRules

/-- The weights of the five factors, which are not negative and sum to one. -/
structure RelevanceWeights (α : Type) where
  priority : α
  tags : α
  location : α
  level : α
  story : α

namespace RelevanceWeights

def standard : RelevanceWeights Float :=
  { priority := 0.3, tags := 0.2, location := 0.2, level := 0.15, story := 0.15 }

def toList {α : Type} (w : RelevanceWeights α) : List α :=
  [w.priority, w.tags, w.location, w.level, w.story]

/-- How far the sum of the weights may be from one. -/
def tolerance : Float := 1e-6

/-- Whether the sum of the weights is too far from one. -/
def isOff (total : Float) : Bool := (total - 1.0).abs > tolerance

/-- Weights with a negative one among them, or with a sum off one, are rejected. -/
def check (w : RelevanceWeights Float) : Decoded (RelevanceWeights Float) :=
  if w.toList.any (· < 0.0) || isOff (Scalar.sum w.toList) then .fault .rejected else .ok w

open Decode

def decode : Json → Decoded (RelevanceWeights Float) :=
  record fun ms =>
    (RelevanceWeights.mk <$>
      field ms ["priority"] number standard.priority <*>
      field ms ["tags"] number standard.tags <*>
      field ms ["location"] number standard.location <*>
      field ms ["level"] number standard.level <*>
      field ms ["story"] number standard.story).andThen check

/-- The weights by name. -/
def members (w : RelevanceWeights Float) : Members Json := [
  ("priority", .float w.priority), ("tags", .float w.tags), ("location", .float w.location),
  ("level", .float w.level), ("story", .float w.story)]

/-- The weights that count where none are given, by name. -/
def standardMembers : Members Json := standard.members

def encode (w : RelevanceWeights Float) : Json := .obj w.members

end RelevanceWeights

end EntityRules
