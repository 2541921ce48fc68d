import EntityRules.Proofs.Engine.Run

/-! Which requests without conditions can be written. -/

namespace EntityRules

open Json (Writable isLong)

variable {α : Type} {room : Nat}

namespace Encode

theorem writable_list {enc : α → Json} {xs : List α} :
    Writable (room + 1) (list enc xs) ↔ ∀ x ∈ xs, Writable room (enc x) := by
  rw [list, Json.writable_arr_iff, List.forall_mem_map]

theorem writable_mapping {enc : α → Json} {ms : Members α} :
    Writable (room + 1) (mapping enc ms) ↔ ∀ m ∈ ms, Writable room (enc m.2) := by
  rw [mapping, Json.writable_obj_iff, List.forall_mem_map]

theorem writable_optional {enc : α → Json} {v : Option α} :
    Writable room (optional enc v) ↔ ∀ a ∈ v, Writable room (enc a) := by
  cases v with
  | none => exact iff_of_true Json.writable_null nofun
  | some a => simp [optional]

theorem writable_word [Vocabulary α] (a : α) : Writable room (word a) := Json.writable_str _

theorem writable_moment (m : Moment) : Writable room (moment m) := Json.writable_str _

end Encode

open Encode

theorem WorldState.writable_time (time : Option Float) :
    Writable room ((time.map Value.float).getD .unset).dump := by
  cases time <;> exact Json.writable_float _

/-- The level and the turn of a state have few enough digits to be written. -/
def GameState.IsShort (s : GameState) : Prop :=
  isLong s.player.level = false ∧ isLong s.session.turn = false

/-- A state can be written if its whole numbers can. -/
theorem GameState.writable_encode_iff {s : GameState} :
    Writable (room + 3) s.encode ↔ s.IsShort := by
  simp only [IsShort, encode, view, PlayerState.view, WorldState.view, SessionState.view,
    StoryState.view, RecentEvent.view, Value.dump, Value.dumpMembers, Value.dump_ofList, Value.dump_ofMapping,
    Value.dump_ofOption, Json.writable_obj_cons, Json.writable_obj_nil, writable_list,
    writable_mapping, writable_optional, Json.writable_str, Json.writable_float, Json.writable_bool,
    Json.writable_int_iff, WorldState.writable_time, implies_true, true_and, and_true]

theorem QueryFilter.layers_conditionless {f : QueryFilter}
    (conditionless : f.conditions.getD [] = []) : f.layers ≤ Json.mostLayers := by
  rw [layers, conditionless]
  decide

/-- A filter without conditions can be written. -/
theorem QueryFilter.writable_encode {f : QueryFilter} (conditionless : f.conditions.getD [] = []) :
    Writable (room + 3) f.encode := by
  have conditions : Writable (room + 2)
      (optional (fun cs => .arr (Condition.encodeAll cs)) f.conditions) := by
    rw [writable_optional]
    rintro cs hcs
    rw [Option.mem_def.mp hcs] at conditionless
    rw [show cs = [] from conditionless]
    rfl
  simp only [encode, PriorityRange.encode, TimeConstraints.encode, SoftBounds.encode,
    ScoreRange.encode, MinimumBound.encode, DifficultyMatch.encode, Json.writable_obj_cons,
    Json.writable_obj_nil, writable_list, writable_optional, writable_word, writable_moment,
    Json.writable_str, Json.writable_float, conditions, implies_true, true_and]

/-- Options can be written if the number of results can. -/
theorem QueryOptions.writable_encode_iff {o : QueryOptions} :
    Writable (room + 1) o.encode ↔ ∀ n ∈ o.maxResults, isLong n = false := by
  simp only [encode, Json.writable_obj_cons, Json.writable_obj_nil, writable_optional,
    Json.writable_str, Json.writable_bool, Json.writable_int_iff, and_true]

/-- With room for three levels, a request without conditions can be written unless one of its three
whole numbers is too long. -/
theorem Request.isWritable_iff_of_conditionless {q : Request}
    (conditionless : q.filter.conditions.getD [] = []) : q.IsWritable (room + 3) ↔
      q.state.IsShort ∧ ∀ n ∈ q.options.maxResults, isLong n = false := by
  rw [isWritable_iff, GameState.writable_encode_iff, QueryOptions.writable_encode_iff,
    and_iff_right (QueryFilter.layers_conditionless conditionless),
    and_iff_right (QueryFilter.writable_encode conditionless)]

end EntityRules
