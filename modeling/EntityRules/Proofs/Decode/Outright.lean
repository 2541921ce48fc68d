import EntityRules.Proofs.Reread.Condition
import EntityRules.RuleDocument
import EntityRules.State

/-! Documents that are refused outright. -/

namespace EntityRules

variable {α β : Type}

namespace Decoded

/-- The refusal of a reading, if it is no list of faults. -/
def outright : Decoded α → Option Refusal
  | ok _ => none
  | refused (.faults _) => none
  | refused why => some why

/-- A reading without an outright refusal gives a value or faults. -/
theorem faults_of_outright {a : Decoded α} (h : a.outright = none) {why : Refusal}
    (refused : a = .refused why) : ∃ fs, why = .faults fs := by
  subst refused
  cases why with
  | faults fs => exact ⟨fs, rfl⟩
  | shapeOfNumber => cases h
  | sizeOfNumber => cases h

@[simp] theorem outright_ok (v : α) : (ok v).outright = none := rfl

@[simp] theorem outright_fault (kind : FaultKind) : (fault kind : Decoded α).outright = none := rfl

@[simp] theorem outright_map (f : α → β) (a : Decoded α) : (f <$> a).outright = a.outright := by
  cases a with
  | ok v => rfl
  | refused why => cases why <;> rfl

/-- Of two parts, the first outright refusal stands. -/
@[simp] theorem outright_seq (f : Decoded (α → β)) (a : Decoded α) :
    (f <*> a).outright = f.outright.or a.outright := by
  cases f with
  | ok g =>
    cases a with
    | ok v => rfl
    | refused why => cases why <;> rfl
  | refused why =>
    cases a with
    | ok v => cases why <;> rfl
    | refused other => cases why <;> cases other <;> rfl

@[simp] theorem outright_under (a : Decoded α) (s : PathStep) :
    (a.under s).outright = a.outright := by
  cases a with
  | ok v => rfl
  | refused why => cases why <;> rfl

end Decoded

namespace Decode

open Decoded

@[simp] theorem outright_text (j : Json) : (text j).outright = none := by
  cases j <;> rfl

@[simp] theorem outright_whole (j : Json) : (whole j).outright = none := by
  cases j with
  | float x =>
    rw [whole]
    split
    · split
      · split <;> rfl
      · rfl
    · rfl
  | str s =>
    rw [whole]
    split
    · rfl
    · split <;> rfl
  | _ => rfl

@[simp] theorem outright_number (j : Json) : (number j).outright = none := by
  cases j with
  | int n =>
    rw [number]
    split <;> rfl
  | str s =>
    rw [number]
    split <;> rfl
  | _ => rfl

@[simp] theorem outright_boolean (j : Json) : (boolean j).outright = none := by
  cases j with
  | int n =>
    rw [boolean]
    repeat' split
    all_goals rfl
  | float x =>
    rw [boolean]
    repeat' split
    all_goals rfl
  | str s =>
    rw [boolean]
    split <;> rfl
  | _ => rfl

@[simp] theorem outright_moment (j : Json) : (moment j).outright = none := by
  cases j with
  | str s =>
    rw [moment]
    split <;> rfl
  | int n =>
    rw [moment]
    split
    · rfl
    · split <;> rfl
  | float x =>
    rw [moment]
    split <;> rfl
  | _ => rfl

@[simp] theorem outright_word [Vocabulary α] (j : Json) :
    (word j : Decoded α).outright = none := by
  cases j with
  | str s =>
    rw [word]
    split <;> rfl
  | _ => rfl

@[simp] theorem findSome?_none {ι : Type} (l : List ι) :
    (l.findSome? fun _ => (none : Option Refusal)) = none :=
  List.findSome?_eq_none_iff.mpr fun _ _ => rfl

/-- The items of a list; nothing else has any. -/
def itemsIn : Json → List Json
  | .arr items => items
  | _ => []

/-- The members of an object; nothing else has any. -/
def membersIn : Json → Members Json
  | .obj ms => ms
  | _ => []

@[simp] theorem outright_optional (dec : Json → Decoded α) (j : Json) :
    (optional dec j).outright = if j.isNull then none else (dec j).outright := by
  cases j with
  | null => rfl
  | _ => exact outright_map some _

/-- The first item that is refused outright decides. -/
theorem outright_itemsFrom (dec : Json → Decoded α) (i : Nat) (items : List Json) :
    (itemsFrom dec i items).outright = items.findSome? fun j => (dec j).outright := by
  induction items generalizing i with
  | nil => rfl
  | cons j rest ih =>
    rw [itemsFrom, outright_seq, outright_map, outright_under, ih, List.findSome?_cons]
    cases (dec j).outright <;> rfl

@[simp] theorem outright_list (dec : Json → Decoded α) (j : Json) :
    (list dec j).outright = (itemsIn j).findSome? fun j => (dec j).outright := by
  cases j with
  | arr items => exact outright_itemsFrom dec 0 items
  | _ => rfl

theorem outright_membersFrom (dec : Json → Decoded α) (ms : Members Json) :
    (membersFrom dec ms).outright = ms.findSome? fun m => (dec m.2).outright := by
  induction ms with
  | nil => rfl
  | cons m rest ih =>
    rw [membersFrom, outright_seq, outright_map, outright_map, outright_under, ih,
      List.findSome?_cons]
    cases (dec m.2).outright <;> rfl

@[simp] theorem outright_mapping (dec : Json → Decoded α) (j : Json) :
    (mapping dec j).outright = (membersIn j).findSome? fun m => (dec m.2).outright := by
  cases j with
  | obj ms => exact outright_membersFrom dec ms
  | _ => rfl

@[simp] theorem outright_record {dec : Members Json → Decoded α}
    (h : ∀ ms, (dec ms).outright = none) (j : Json) : (record dec j).outright = none := by
  cases j with
  | obj ms => exact h ms
  | _ => rfl

@[simp] theorem outright_field (ms : Members Json) (names : List String) (dec : Json → Decoded α)
    (default : α) : (field ms names dec default).outright =
      (firstPresent ms names).bind fun m => (dec m.2).outright := by
  unfold field
  split
  · next found => rw [outright_under, found]; rfl
  · next absent => rw [absent]; rfl

@[simp] theorem outright_required (ms : Members Json) (names : List String)
    (dec : Json → Decoded α) : (required ms names dec).outright =
      (firstPresent ms names).bind fun m => (dec m.2).outright := by
  unfold required
  split
  · next found => rw [outright_under, found]; rfl
  · next absent => rw [absent]; rfl

end Decode

open Decode Decoded

@[simp] theorem PlayerState.outright_ofMembers (ms : Members Json)
    (stats relationships : Decoded (Members Float)) :
    (PlayerState.ofMembers ms stats relationships).outright =
      stats.outright.or relationships.outright := by
  simp [PlayerState.ofMembers]

@[simp] theorem PlayerState.outright_decode (j : Json) : (decode j).outright = none := by
  simp [decode]

@[simp] theorem WorldState.outright_ofMembers (ms : Members Json) (flags : Decoded (Members Bool)) :
    (WorldState.ofMembers ms flags).outright = flags.outright := by
  simp [WorldState.ofMembers]

@[simp] theorem WorldState.outright_decode (j : Json) : (decode j).outright = none := by
  simp [decode]

@[simp] theorem SessionPhase.outright_decode (j : Json) : (decode j).outright = none := by
  cases j with
  | str s =>
    rw [decode]
    split
    · rfl
    · exact outright_word _
  | _ => rfl

@[simp] theorem SessionState.outright_decode (j : Json) : (decode j).outright = none := by
  simp [decode]

@[simp] theorem StoryState.outright_decode (j : Json) : (decode j).outright = none := by
  simp [decode]

@[simp] theorem RecentEvent.outright_decode (j : Json) : (decode j).outright = none := by
  simp [decode]

/-- A game state that is refused has faults. -/
@[simp] theorem GameState.outright_decode (j : Json) : (decode j).outright = none := by
  simp [decode]

@[simp] theorem Condition.outright_commonFrom (tag : Tag) (ms : Members Json) :
    (commonFrom tag ms).outright = none := by
  simp [commonFrom]

theorem Condition.outright_ofMembers (tag : Tag) (ms : Members Json)
    {children : Decoded (List Condition)} (h : children.outright = none) :
    (ofMembers tag ms children).outright = none := by
  cases tag <;> simp [ofMembers, h]

theorem Condition.outright_decodeWithin (room : Nat) (j : Json) :
    (decodeWithin room j).outright = none := by
  induction room generalizing j with
  | zero => rw [decodeWithin, outright_under, outright_fault]
  | succ room ih =>
    cases j with
    | obj ms =>
      rw [decodeWithin, outright_under]
      apply outright_ofMembers
      simp [childrenFrom_eq, ih]
    | _ =>
      rw [decodeWithin, outright_under, outright_fault]
      intro ms same
      cases same

@[simp] theorem Condition.outright_decode (j : Json) : (decode j).outright = none :=
  outright_decodeWithin deepest j

@[simp] theorem PriorityRange.outright_decode (j : Json) : (decode j).outright = none := by
  simp [decode]

@[simp] theorem TimeConstraints.outright_decode (j : Json) : (decode j).outright = none := by
  simp [decode]

@[simp] theorem ScoreRange.outright_decode (j : Json) : (decode j).outright = none := by
  simp [decode]

@[simp] theorem MinimumBound.outright_decode (j : Json) : (decode j).outright = none := by
  simp [decode]

@[simp] theorem DifficultyMatch.outright_decode (j : Json) : (decode j).outright = none := by
  simp [decode]

@[simp] theorem SoftBounds.outright_decode (j : Json) : (decode j).outright = none := by
  simp [decode]

@[simp] theorem QueryFilter.outright_factors (j : Json) : (factors j).outright = none := by
  unfold factors
  split
  · rfl
  · simp

/-- A filter that is refused has faults. -/
@[simp] theorem QueryFilter.outright_decode (j : Json) : (decode j).outright = none := by
  simp [decode]

/-- Options that are refused have faults. -/
@[simp] theorem QueryOptions.outright_decode (j : Json) : (decode j).outright = none := by
  simp [decode]

@[simp] theorem EntityRequirements.outright_decode (j : Json) : (decode j).outright = none := by
  simp [decode]

@[simp] theorem ResourceRequirements.outright_decode (j : Json) : (decode j).outright = none := by
  simp [decode]

@[simp] theorem EntityRecord.outright_decode (j : Json) : (decode j).outright = none := by
  simp [decode]

@[simp] theorem RelationshipMetadata.outright_decode (now : Moment) (j : Json) :
    (decode now j).outright = none := by
  simp [decode]

namespace Relationship

/-- How a value is refused as a strength: it is no number and no text, or too large a number. -/
def strengthRefusal : Json → Option Refusal
  | .null | .arr _ | .obj _ => some .shapeOfNumber
  | .int n => if (Binary64.ofInt? n).isNone then some .sizeOfNumber else none
  | .bool _ | .float _ | .str _ => none

theorem outright_strengthFrom (j : Json) : (strengthFrom j).outright = strengthRefusal j := by
  cases j with
  | int n =>
    rw [strengthFrom, strengthRefusal]
    cases Binary64.ofInt? n <;> rfl
  | str s =>
    rw [strengthFrom]
    split <;> rfl
  | _ => rfl

/-- How a document is refused as a relationship: for its strength. -/
def refusal (j : Json) : Option Refusal := (j.member? "strength").bind strengthRefusal

theorem outright_decode (now : Moment) (j : Json) : (decode now j).outright = refusal j := by
  cases j with
  | obj ms =>
    have strength : ((firstPresent ms ["strength"]).bind fun m => strengthRefusal m.2) =
        (Members.get? ms "strength").bind strengthRefusal := by
      rw [firstPresent]
      cases Members.get? ms "strength" <;> rfl
    simp [decode, record, outright_strengthFrom, strength, refusal, Json.member?]
  | _ => rfl

end Relationship

namespace RuleDocument

/-- The relationships that a document lists. -/
def listed (ms : Members Json) : List Json :=
  itemsIn ((Members.get? ms "relationships").getD .null)

/-- A rule document is refused for the strength of the first relationship that is, and has nothing
but faults otherwise. -/
theorem outright_decode (now : Moment) (ms : Members Json) :
    (decode now (.obj ms)).outright = (listed ms).findSome? Relationship.refusal := by
  have relationships : ((firstPresent ms ["relationships"]).bind fun m =>
      (itemsIn m.2).findSome? Relationship.refusal) =
        (listed ms).findSome? Relationship.refusal := by
    rw [firstPresent, listed]
    cases Members.get? ms "relationships" <;> rfl
  simp [decode, record, Relationship.outright_decode, relationships]

end RuleDocument

end EntityRules
