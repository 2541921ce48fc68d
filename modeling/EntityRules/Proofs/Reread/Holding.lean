import EntityRules.Proofs.Reread.Condition
import EntityRules.Proofs.Reread.Record
import EntityRules.RuleDocument
import EntityRules.Weights

/-! Records that are read back because of what reading them makes sure of. -/

namespace EntityRules

open Decode Decoded

/-- Conditions that may be left out. -/
theorem Condition.rereads_optional : Rereads (optional (list decode)) (optional (list decode))
    (Encode.optional (Encode.list encode)) :=
  Condition.rereads.list.optional fun _ => nofun

namespace QueryFilter

theorem restores_factors : Restores factors (Encode.optional (Encode.list .str)) := by
  intro v
  cases v with
  | none => rfl
  | some names => exact restores_text.list.optional (fun _ => nofun) (some names)

theorem yields_conditions (j : Json) : (decode j).Yields fun f =>
    optional (list Condition.decode)
      (Encode.optional (Encode.list Condition.encode) f.conditions) = .ok f.conditions := by
  refine yields_record (fun ms => ?_) j
  repeat refine yields_seq ?_
  refine yields_map ?_
  intro _ _ _ _ _ _ _ _ _ _ conditions hconditions _ _ _ _ _ _
  exact Condition.rereads_optional.field rfl hconditions

theorem rereads : Rereads decode decode encode := by
  intro j f h
  have kinds := (restores_word EntityKind.namesWords).list.optional (fun _ => nofun) f.entityTypes
  have tags := restores_text.list.optional (fun _ => nofun) f.tags
  have priority := PriorityRange.restores.optional (fun _ => nofun) f.priority
  have excluded := restores_text.list.optional (fun _ => nofun) f.excludeIds
  have conditions := yields_conditions j f h
  have factors := restores_factors f.contextFactors
  have times := TimeConstraints.restores.optional (fun _ => nofun) f.timeConstraints
  have bounds := SoftBounds.restores.optional (fun _ => nofun) f.softBounds
  simp [decode, encode, record, field, firstPresent, Members.get?_cons, kinds, tags, priority,
    excluded, conditions, factors, times, bounds]

end QueryFilter

namespace EntityConditionSet

theorem yields_conditions (j : Json) : (decode j).Yields fun s =>
    list Condition.decode (Encode.list Condition.encode s.conditions) = .ok s.conditions := by
  refine yields_record (fun ms => ?_) j
  repeat refine yields_seq ?_
  refine yields_map ?_
  intro _ _ conditions hconditions _ _
  exact Condition.rereads.list.field rfl hconditions

theorem rereads : Rereads decode decode encode := by
  intro j s h
  have conditions := yields_conditions j s h
  have kind := (restores_word EntityKind.namesWords).optional (fun _ => nofun) s.kind
  simp [decode, encode, record, field, required, firstPresent, Members.get?_cons, conditions, kind]

end EntityConditionSet

theorem Scalar.clamp_clamp {α : Type} [Scalar α] (below : lt (0 : α) 1) (x : α) :
    clamp (clamp x) = clamp x := by
  by_cases small : lt x 1
  · by_cases positive : lt 0 x
    · have same : clamp x = x := by simp [clamp, max, min, small, positive]
      rw [same, same]
    · have zero : clamp x = 0 := by simp [clamp, max, min, small, positive]
      rw [zero]
      simp [clamp, max, min, below]
  · have one : clamp x = 1 := by simp [clamp, max, min, small, below]
    rw [one]
    simp [clamp, max, min, below]

namespace Relationship

theorem defaultId_ne_empty (source target : String) (type : RelationshipType) :
    defaultId source target type ≠ "" := by
  intro h
  have := congrArg String.length h
  simp [defaultId] at this

/-- A strength that was read is in the range that it is brought into. -/
theorem rereads_strength : Rereads strengthFrom strengthFrom .float := by
  intro j x h
  have clamped : ∀ y, x = Scalar.clamp y → strengthFrom (.float x) = .ok x := by
    rintro y rfl
    rw [strengthFrom, Scalar.clamp_clamp (by decide)]
  cases j with
  | int n =>
    rw [strengthFrom] at h
    split at h
    · next y _ =>
      cases h
      exact clamped y rfl
    · cases h
  | float y =>
    cases h
    exact clamped y rfl
  | bool b =>
    cases h
    cases b
    · exact clamped 0 (by decide)
    · exact clamped 1 (by decide)
  | str s =>
    rw [strengthFrom] at h
    split at h
    · next y _ =>
      cases h
      exact clamped y rfl
    · cases h
  | _ => cases h

/-- What reading a relationship makes sure of. -/
structure Settled (r : Relationship Float) : Prop where
  named : r.id ≠ ""
  strength : strengthFrom (.float r.strength) = .ok r.strength
  conditions : optional (list Condition.decode)
    (Encode.optional (Encode.list Condition.encode) r.conditions) = .ok r.conditions

theorem yields_settled (now : Moment) (j : Json) : (decode now j).Yields Settled := by
  have one : strengthFrom (.float 1) = .ok 1 := rereads_strength (.bool true) 1 rfl
  refine yields_record (fun ms => ?_) j
  repeat refine yields_seq ?_
  refine yields_map ?_
  intro id _ source _ target _ type _ strength hstrength _ _ conditions hconditions _ _
  constructor
  · dsimp only
    split
    · exact defaultId_ne_empty source target type
    · assumption
  · exact rereads_strength.field one hstrength
  · exact Condition.rereads_optional.field rfl hconditions

theorem rereads (now later : Moment) : Rereads (decode now) (decode later) encode := by
  intro j r h
  obtain ⟨named, strength, conditions⟩ := yields_settled now j r h
  have type := restores_word RelationshipType.namesWords r.type
  have metadata := RelationshipMetadata.restores later r.metadata
  simp [decode, encode, record, field, required, firstPresent, Members.get?_cons, named, strength,
    conditions, type, metadata]

end Relationship

namespace GraphSnapshot

theorem yields_relationships (now later : Moment) (j : Json) : (decode now j).Yields fun s =>
    mapping (list (Relationship.decode later))
      (Encode.mapping (Encode.list Relationship.encode) s.relationships) = .ok s.relationships := by
  refine yields_record (fun ms => ?_) j
  repeat refine yields_seq ?_
  refine yields_map ?_
  intro relationships hrelationships _ _ _ _
  exact (Relationship.rereads now later).list.mapping.field rfl hrelationships

theorem rereads (now later : Moment) : Rereads (decode now) (decode later) encode := by
  intro j s h
  have relationships := yields_relationships now later j s h
  have metadata := GraphMetadata.restores later s.metadata
  simp [decode, encode, record, field, firstPresent, Members.get?_cons, relationships, metadata]

end GraphSnapshot

namespace RelevanceWeights

/-- Weights that were read have passed their check. -/
theorem check_of_decode {j : Json} {w : RelevanceWeights Float} (h : decode j = .ok w) :
    check w = .ok w := by
  refine yields_record (P := fun w => check w = .ok w) (fun ms w h => ?_) j w h
  obtain ⟨v, -, passed⟩ := andThen_eq_ok.mp h
  have same : v = w := by
    rw [check] at passed
    split at passed
    · cases passed
    · cases passed
      rfl
  rw [same] at passed
  exact passed

theorem rereads : Rereads decode decode encode := by
  intro j w h
  have passed := check_of_decode h
  simp [decode, encode, members, record, field, firstPresent, Members.get?_cons, passed]

end RelevanceWeights

namespace RuleDocument

/-- What reading a rule document makes sure of. -/
structure Settled (later : Moment) (d : RuleDocument) : Prop where
  entities : mapping (list Condition.decode)
    (Encode.mapping (Encode.list Condition.encode) d.entities) = .ok d.entities
  records : list EntityRecord.decode (Encode.list EntityRecord.encode d.records) = .ok d.records
  relationships : list (Relationship.decode later)
    (Encode.list Relationship.encode d.relationships) = .ok d.relationships

theorem yields_settled (now later : Moment) (j : Json) :
    (decode now j).Yields (Settled later) := by
  refine yields_record (fun ms => ?_) j
  repeat refine yields_seq ?_
  refine yields_map ?_
  intro entities hentities records hrecords relationships hrelationships
  constructor
  · exact Condition.rereads.list.mapping.field rfl hentities
  · exact EntityRecord.rereads.list.field rfl hrecords
  · exact (Relationship.rereads now later).list.field rfl hrelationships

theorem rereads (now later : Moment) : Rereads (decode now) (decode later) encode := by
  intro j d h
  obtain ⟨entities, records, relationships⟩ := yields_settled now later j d h
  simp [decode, encode, record, field, firstPresent, Members.get?_cons, entities, records,
    relationships]

end RuleDocument

end EntityRules
