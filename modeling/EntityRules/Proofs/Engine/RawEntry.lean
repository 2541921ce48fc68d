import EntityRules.Proofs.Engine.Tally
import EntityRules.Proofs.Evaluation.Kindless
import EntityRules.Proofs.Query.Correctness
import EntityRules.Proofs.Reread.Field

/-! Raw entries of a batch beside evaluations of single entities. -/

namespace EntityRules

open Decode Decoded

/-- Two results tell the same about the conditions of an entity. -/
structure EntityResult.Agrees (r r' : EntityResult) : Prop where
  success : r.success = r'.success
  evaluated : r.evaluated = r'.evaluated
  passed : r.passed = r'.passed
  failed : r.failed = r'.failed
  errors : r.errors.map ProcessingError.message = r'.errors.map ProcessingError.message
  warnings : r.warnings.map Warning.message = r'.warnings.map Warning.message

/-- A result beside the one without a condition that cannot be read: one more condition failed, with
a warning. -/
structure EntityResult.WithMalformed (r without : EntityResult) : Prop where
  success : r.success = false
  evaluated : r.evaluated = without.evaluated + 1
  passed : r.passed = without.passed
  failed : r.failed = without.failed + 1
  errors : r.errors = without.errors
  warnings : ∃ before behind, without.warnings = before ++ behind ∧
    r.warnings = before ++ .malformed :: behind

/-- The members of an entry that names an entity, lists documents as its conditions, and gives no
kind or a known one. -/
structure BatchEntry.Lists (ms : Members Json) (id : String) (items : List Json)
    (kind : Option EntityKind) : Prop where
  named : required ms ["entity_id", "entityId"] text = .ok id
  listed : ms.get? "conditions" = some (.arr items)
  kind : field ms ["entity_type", "entityType"] (optional word) none = .ok kind

namespace RuleEngine

theorem readConditions_eq {items : List Json} {cs : List Condition}
    (h : items.map Condition.decode = cs.map .ok) : readConditions items = cs.map some := by
  calc readConditions items
      = (items.map Condition.decode).map toOption := by rw [readConditions, List.map_map]; rfl
    _ = cs.map some := by rw [h, List.map_map]; rfl

/-- The conditions are read as a whole or one of them cannot be. -/
theorem readable_cases (items : List Json) :
    (∃ cs, itemsFrom Condition.decode 0 items = .ok cs ∧ readConditions items = cs.map some ∧
      ∀ j ∈ items, ∃ c, Condition.decode j = .ok c) ∨
    ∃ why, itemsFrom Condition.decode 0 items = .refused why ∧
      ¬ ∀ j ∈ items, ∃ c, Condition.decode j = .ok c := by
  cases h : itemsFrom Condition.decode 0 items with
  | ok cs =>
    have each := itemsFrom_eq_ok.mp h
    refine .inl ⟨cs, rfl, readConditions_eq each, fun j hj => ?_⟩
    have mem : Condition.decode j ∈ cs.map Decoded.ok := each ▸ List.mem_map_of_mem hj
    obtain ⟨c, -, hc⟩ := List.mem_map.mp mem
    exact ⟨c, hc.symm⟩
  | refused why =>
    refine .inr ⟨why, rfl, fun all => ?_⟩
    obtain ⟨cs, each⟩ := exists_map_eq all
    rw [itemsFrom_eq_ok.mpr each] at h
    cases h

end RuleEngine

namespace BatchEntry

variable {ms : Members Json} {id : String} {items : List Json} {kind : Option EntityKind}

theorem Lists.decode (h : Lists ms id items kind) :
    EntityConditionSet.decode (.obj ms) =
      (EntityConditionSet.mk id · kind) <$>
        (itemsFrom Condition.decode 0 items).under (.member "conditions") := by
  have conditions : field ms ["conditions"] (list Condition.decode) [] =
      (itemsFrom Condition.decode 0 items).under (.member "conditions") := by
    simp [field, firstPresent, h.listed, list]
  rw [EntityConditionSet.decode, record, h.named, h.kind, conditions]
  cases (itemsFrom Condition.decode 0 items).under (.member "conditions") <;> rfl

/-- The entry is reported under the name of its entity. -/
theorem Lists.nominalId (h : Lists ms id items kind) : (document (.obj ms)).nominalId = id := by
  have named := h.named
  simp only [required, firstPresent] at named
  rw [BatchEntry.nominalId]
  cases first : Members.get? ms "entity_id" with
  | some j =>
    simp only [first, under_eq_ok, text_eq_ok] at named ⊢
    rw [named]
    rfl
  | none =>
    cases second : Members.get? ms "entityId" with
    | some j =>
      simp only [first, second, under_eq_ok, text_eq_ok] at named ⊢
      rw [named]
      rfl
    | none =>
      rw [first, second] at named
      cases named

end BatchEntry

namespace Evaluator

variable {ms : Members Json} {id : String} {items : List Json} {kind : Option EntityKind}

/-- An entry of which all conditions can be read is processed as they are. -/
theorem processEntry_of_readable (h : BatchEntry.Lists ms id items kind) {cs : List Condition}
    (read : itemsFrom Condition.decode 0 items = .ok cs) (ev : Evaluator)
    (state : Decoded GameState) :
    ev.processEntry state (.document (.obj ms)) = ev.process id kind [] (cs.map some) state := by
  rw [processEntry, BatchEntry.read?, BatchEntry.readSet, h.decode, read]
  rfl

/-- An entry with a condition that cannot be read is refused, and nothing of it is evaluated. -/
theorem processEntry_of_unreadable (h : BatchEntry.Lists ms id items kind) {why : Refusal}
    (unread : itemsFrom Condition.decode 0 items = .refused why) (ev : Evaluator)
    (state : Decoded GameState) :
    ∃ count, ev.processEntry state (.document (.obj ms)) =
      (.withoutEntry id (.faults count), ev) := by
  rw [processEntry, BatchEntry.read?, BatchEntry.readSet, h.decode, unread]
  cases why <;> exact ⟨_, by rw [← h.nominalId]; rfl⟩

theorem evaluateRead_ofKind {ev : Evaluator} (ignores : ev.functions.IgnoresKind)
    (ctx : EvaluationContext) (kind : Option EntityKind) (c : Option Condition) :
    ev.evaluateRead (ctx.ofKind kind) c = ev.evaluateRead ctx c := by
  cases c with
  | none => rfl
  | some c =>
    simp only [evaluateRead, evaluate, Condition.evaluate_ofKind c (ignores.callsOnly c) kind]

theorem outcomes_ofKind {ev : Evaluator} (ignores : ev.functions.IgnoresKind)
    (ctx : EvaluationContext) (kind : Option EntityKind) (cs : List (Option Condition)) :
    outcomes (ctx.ofKind kind) cs ev = outcomes ctx cs ev := by
  induction cs generalizing ev with
  | nil => rfl
  | cons c rest ih =>
    have behind : (ev.evaluateRead ctx c).2.functions.IgnoresKind := by
      rwa [functions_evaluateRead]
    rw [outcomes, outcomes, evaluateRead_ofKind ignores, ih behind]

/-- An entity is processed under one kind and under another one alike, unless the functions look at
the kind. -/
theorem agrees_process {ev : Evaluator} {id : String} {kind kind' : Option EntityKind}
    (alike : kind.getD (.infer id) = kind'.getD (.infer id) ∨ ev.functions.IgnoresKind)
    (metadata : Members Json) (cs : List (Option Condition)) (state : Decoded GameState) :
    (ev.process id kind metadata cs state).1.Agrees (ev.process id kind' metadata cs state).1 := by
  cases state with
  | ok state =>
    have same : outcomes (givenContext id kind metadata state) cs ev =
        outcomes (givenContext id kind' metadata state) cs ev := by
      rcases alike with same | ignores
      · rw [givenContext, givenContext, same]
      · exact outcomes_ofKind ignores (givenContext id kind' metadata state) _ cs
    rw [process_ok, process_ok, same]
    exact ⟨rfl, rfl, rfl, rfl, rfl, rfl⟩
  | refused why => exact ⟨rfl, rfl, rfl, rfl, rfl, rfl⟩

/-- A condition that cannot be read is one more failed condition, with a warning. -/
theorem process_malformed (ev : Evaluator) (id : String) (kind : Option EntityKind)
    (metadata : Members Json) (cs ds : List (Option Condition)) (state : GameState) :
    (ev.process id kind metadata (cs ++ none :: ds) (.ok state)).1.WithMalformed
      (ev.process id kind metadata (cs ++ ds) (.ok state)).1 := by
  rw [process_ok, process_ok]
  obtain ⟨before, behind, s, without, beside⟩ :=
    outcomes_malformed (givenContext id kind metadata state) cs ds ev
  rw [without, beside]
  constructor
  · simp [EntityResult.tally, Outcome.warned]
  · simp [EntityResult.tally, Nat.add_assoc]
  · simp [EntityResult.tally, Outcome.warned]
  · simp [EntityResult.tally, Outcome.warned, Nat.add_assoc]
  · simp [EntityResult.tally, Outcome.warned]
  · exact ⟨before.flatMap (·.warnings), behind.flatMap (·.warnings),
      by simp [EntityResult.tally], by simp [EntityResult.tally, Outcome.warned]⟩

end Evaluator

namespace RuleEngine

variable {ms : Members Json} {id : String} {items : List Json} {kind : Option EntityKind}

namespace Sample

def level : Json :=
  .obj [("type", .str "simple"), ("field", .str "player.level"),
    ("operator", .str "greater_than"), ("value", .int 0)]

/-- The members of an entry with some conditions. -/
def entry (conditions : List Json) : Members Json :=
  [("entity_id", .str "quest_a"), ("conditions", .arr conditions)]

theorem lists_entry (conditions : List Json) :
    BatchEntry.Lists (entry conditions) "quest_a" conditions none := ⟨rfl, rfl, rfl⟩

end Sample

end RuleEngine

end EntityRules
