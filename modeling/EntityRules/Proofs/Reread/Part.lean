import EntityRules.Proofs.Reread.Field
import EntityRules.Entity
import EntityRules.Query.Filter
import EntityRules.Relationship

/-! Records that are read back whatever they hold. -/

namespace EntityRules

open Decode

theorem EntityKind.namesWords : NamesWords EntityKind := by
  intro w
  cases w <;> rfl

theorem RelationshipType.namesWords : NamesWords RelationshipType := by
  intro w
  cases w <;> rfl

theorem ValidationStatus.namesWords : NamesWords ValidationStatus := by
  intro w
  cases w <;> rfl

/-- No phase has the name of a mode that stands for another one. -/
theorem SessionPhase.restores : Restores decode Encode.word := by
  intro w
  cases w <;> rfl

namespace Value

@[simp] theorem dump_ofOption {α : Type} (f : α → Value) (v : Option α) :
    (ofOption f v).dump = Encode.optional (fun a => (f a).dump) v := by
  cases v <;> rfl

@[simp] theorem dump_ofList {α : Type} (f : α → Value) (xs : List α) :
    (ofList f xs).dump = Encode.list (fun a => (f a).dump) xs := by
  rw [ofList, dump, dumpItems_eq_map, List.map_map]
  rfl

@[simp] theorem dump_ofMapping {α : Type} (f : α → Value) (ms : Members α) :
    (ofMapping f ms).dump = Encode.mapping (fun a => (f a).dump) ms := by
  rw [ofMapping, dump, Encode.mapping]
  congr 1
  induction ms with
  | nil => rfl
  | cons m rest ih => rw [List.map_cons, dumpMembers, ih, List.map_cons]

end Value

/-- Moments in views are written as they are elsewhere. -/
@[simp] theorem Encode.optional_text (v : Option Moment) :
    optional (fun m : Moment => .str m.text) v = optional moment v := rfl

theorem EntityRequirements.restores : Restores decode (·.view.dump) := by
  intro r
  simp [decode, view, record, field, firstPresent, Members.get?_cons, Value.dump, Value.dumpMembers]

theorem ResourceRequirements.restores : Restores decode (·.view.dump) := by
  intro r
  simp [decode, view, record, field, firstPresent, Members.get?_cons, Value.dump, Value.dumpMembers]

theorem PriorityRange.restores : Restores decode encode := by
  intro r
  simp [decode, encode, record, field, firstPresent, Members.get?_cons]

theorem TimeConstraints.restores : Restores decode encode := by
  intro t
  simp [decode, encode, record, field, firstPresent, Members.get?_cons]

theorem ScoreRange.restores : Restores decode encode := by
  intro r
  simp [decode, encode, record, field, firstPresent, Members.get?_cons]

theorem MinimumBound.restores : Restores decode encode := by
  intro b
  simp [decode, encode, record, field, firstPresent, Members.get?_cons]

theorem DifficultyMatch.restores : Restores decode encode := by
  intro d
  simp [decode, encode, record, field, required, firstPresent, Members.get?_cons]

theorem SoftBounds.restores : Restores decode encode := by
  intro b
  have score := ScoreRange.restores.optional (fun _ => nofun) b.recommendationScore
  have alignment := MinimumBound.restores.optional (fun _ => nofun) b.playerAlignment
  have relevance := MinimumBound.restores.optional (fun _ => nofun) b.storyRelevance
  have difficulty := DifficultyMatch.restores.optional (fun _ => nofun) b.difficultyMatch
  simp [decode, encode, record, field, firstPresent, Members.get?_cons, score, alignment, relevance,
    difficulty]

theorem QueryOptions.restores : Restores decode encode := by
  intro o
  simp [decode, encode, record, field, firstPresent, Members.get?_cons]

theorem RelationshipMetadata.restores (now : Moment) : Restores (decode now) encode := by
  intro m
  simp [decode, encode, record, field, firstPresent, Members.get?_cons]

theorem GraphMetadata.restores (now : Moment) : Restores (decode now) encode := by
  intro m
  have status := restores_word ValidationStatus.namesWords m.status
  simp [decode, encode, record, field, firstPresent, Members.get?_cons, status]

theorem PlayerState.restores : Restores decode (·.view.dump) := by
  intro p
  simp [decode, ofMembers, view, record, field, firstPresent, Members.get?_cons, Value.dump,
    Value.dumpMembers]

theorem SessionState.restores : Restores decode (·.view.dump) := by
  intro s
  have phase := SessionPhase.restores s.phase
  rw [Encode.word] at phase
  simp [decode, view, record, field, firstPresent, Members.get?_cons, Value.dump,
    Value.dumpMembers, phase]

theorem StoryState.restores : Restores decode (·.view.dump) := by
  intro s
  simp [decode, view, record, field, firstPresent, Members.get?_cons, Value.dump,
    Value.dumpMembers]

theorem RecentEvent.restores : Restores decode (·.view.dump) := by
  intro e
  simp [decode, view, record, field, firstPresent, Members.get?_cons, Value.dump,
    Value.dumpMembers]

/-- The same world with its time given. -/
def WorldState.timed (w : WorldState) : WorldState := { w with time := some w.hour }

/-- A time that was not given is written as zero. -/
theorem WorldState.decode_dump (w : WorldState) : decode w.view.dump = .ok w.timed := by
  have time : ((w.time.map Value.float).getD .unset).dump = .float w.hour := by
    cases h : w.time with
    | none => simp [hour, h, Value.dump]
    | some x => simp [hour, h, Value.dump]
  simp [decode, ofMembers, view, record, field, firstPresent, Members.get?_cons, Value.dump,
    Value.dumpMembers, time, timed]

theorem WorldState.dump_timed (w : WorldState) : w.timed.view.dump = w.view.dump := by
  cases h : w.time <;> simp [timed, view, hour, h, Value.dump, Value.dumpMembers]

namespace GameState

/-- The same state with its time given. -/
def timed (s : GameState) : GameState := { s with world := s.world.timed }

theorem decode_encode (s : GameState) : decode s.encode = .ok s.timed := by
  have player := PlayerState.restores s.player
  have world := s.world.decode_dump
  have session := SessionState.restores s.session
  have story := StoryState.restores.optional (fun _ => nofun) s.story
  have events := RecentEvent.restores.list s.recentEvents
  simp [decode, encode, view, record, field, firstPresent, Members.get?_cons, Value.dump,
    Value.dumpMembers, timed, player, world, session, story, events]

theorem encode_timed (s : GameState) : s.timed.encode = s.encode := by
  simp [encode, view, timed, WorldState.dump_timed, Value.dump, Value.dumpMembers]

end GameState

end EntityRules
