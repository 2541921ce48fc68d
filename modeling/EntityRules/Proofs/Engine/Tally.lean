import EntityRules.Engine.Processing
import EntityRules.Proofs.Evaluation.Steady

/-! The result for an entity as a tally of what its conditions came to, one after the other. -/

namespace EntityRules

namespace EntityResult

/-- The result of conditions that came to some outcomes. -/
def tally (id : String) (kind : EntityKind) (os : List Outcome) : EntityResult :=
  { id, kind := some kind
    success := os.all (·.result)
    evaluated := os.length
    passed := os.countP (·.result)
    failed := os.countP (!·.result)
    errors := os.flatMap (·.errors.map .condition)
    warnings := os.flatMap (·.warnings) }

/-- Outcomes that are added one by one are added together. -/
theorem foldl_add (r : EntityResult) (os : List Outcome) :
    os.foldl add r =
      { r with
        success := r.success && os.all (·.result)
        evaluated := r.evaluated + os.length
        passed := r.passed + os.countP (·.result)
        failed := r.failed + os.countP (!·.result)
        errors := r.errors ++ os.flatMap (·.errors.map .condition)
        warnings := r.warnings ++ os.flatMap (·.warnings) } := by
  induction os generalizing r with
  | nil => simp
  | cons o rest ih =>
    rw [List.foldl_cons, ih]
    cases h : o.result <;> simp [add, h, Nat.add_assoc, Nat.add_comm 1]

theorem foldl_add_start (id : String) (kind : EntityKind) (os : List Outcome) :
    os.foldl add (.start id kind) = tally id kind os := by
  simp [foldl_add, start, tally]

/-- A tally counts what is told of the outcomes. -/
theorem tally_told (id : String) (kind : EntityKind) (os : List Outcome) :
    tally id kind (os.map Outcome.told) = tally id kind os := by
  simp [tally, Outcome.told, Function.comp_def, List.flatMap_map]

end EntityResult

namespace Condition

/-- Conditions of which those that were read are steady. -/
def AllSteady (table : FunctionTable) (cs : List (Option Condition)) : Prop :=
  ∀ c, some c ∈ cs → c.IsSteady table

/-- What is told of a condition that may have been unreadable, if it is steady. -/
def toldOf (table : FunctionTable) (ctx : EvaluationContext) : Option Condition → Outcome
  | some c => (c.evaluate table ctx {}).told
  | none => .warned .malformed {}

theorem allSteady_some {table : FunctionTable} {cs : List Condition}
    (h : ∀ c ∈ cs, c.IsSteady table) : AllSteady table (cs.map some) := by
  intro c hc
  obtain ⟨d, hd, same⟩ := List.mem_map.mp hc
  exact Option.some.inj same ▸ h d hd

theorem result_toldOf {table : FunctionTable} {ctx : EvaluationContext} {c : Condition}
    (steady : c.IsSteady table) : (toldOf table ctx (some c)).result = true ↔ c.Holds table ctx :=
  (holds_iff steady {}).symm

end Condition

namespace Evaluator

open Condition (AllSteady toldOf)

variable {ctx : EvaluationContext}

/-- What conditions see when they are evaluated for an entity of a kind that may be given. -/
def givenContext (id : String) (kind : Option EntityKind) (metadata : Members Json)
    (state : GameState) : EvaluationContext :=
  { state, entityId := id, kind := some (kind.getD (.infer id)), metadata }

/-- What conditions come to, one after the other. -/
def outcomes (ctx : EvaluationContext) : List (Option Condition) → Evaluator → List Outcome
  | [], _ => []
  | c :: rest, ev => (ev.evaluateRead ctx c).1 :: outcomes ctx rest (ev.evaluateRead ctx c).2

theorem length_outcomes (cs : List (Option Condition)) (ev : Evaluator) :
    (outcomes ctx cs ev).length = cs.length := by
  induction cs generalizing ev with
  | nil => rfl
  | cons c rest ih => rw [outcomes, List.length_cons, ih, List.length_cons]

theorem evaluateAll_fst (cs : List (Option Condition)) (r : EntityResult) (ev : Evaluator) :
    (evaluateAll ctx cs r ev).1 = (outcomes ctx cs ev).foldl .add r := by
  induction cs generalizing r ev with
  | nil => rfl
  | cons c rest ih => rw [evaluateAll, ih, outcomes, List.foldl_cons]

/-- The result for an entity whose state was read tallies what its conditions come to. -/
theorem process_ok (ev : Evaluator) (id : String) (kind : Option EntityKind)
    (metadata : Members Json) (cs : List (Option Condition)) (state : GameState) :
    (ev.process id kind metadata cs (.ok state)).1 =
      .tally id (kind.getD (.infer id)) (outcomes (givenContext id kind metadata state) cs ev) := by
  rw [process, evaluateAll_fst, EntityResult.foldl_add_start]
  rfl

/-- Every condition of an entity is counted, whether its state was read or not. -/
theorem evaluated_process (ev : Evaluator) (id : String) (kind : Option EntityKind)
    (metadata : Members Json) (cs : List (Option Condition)) (state : Decoded GameState) :
    (ev.process id kind metadata cs state).1.evaluated = cs.length := by
  cases state with
  | ok state =>
    rw [process_ok]
    exact length_outcomes cs ev
  | refused why => rfl

@[simp] theorem functions_evaluateRead (ev : Evaluator) (ctx : EvaluationContext)
    (c : Option Condition) : (ev.evaluateRead ctx c).2.functions = ev.functions := by
  cases c <;> rfl

/-- What is told of a condition depends on the functions and the random source of the evaluator
only. -/
theorem evaluateRead_congr {ev ev' : Evaluator} (functions : ev.functions = ev'.functions)
    (source : ev.source = ev'.source) (ctx : EvaluationContext) (c : Option Condition) :
    (ev.evaluateRead ctx c).1 = (ev'.evaluateRead ctx c).1 ∧
      (ev.evaluateRead ctx c).2.source = (ev'.evaluateRead ctx c).2.source := by
  cases c with
  | none => exact ⟨congrArg (Outcome.warned .malformed) source, source⟩
  | some c => simp only [evaluateRead, evaluate, functions, source, and_self]

theorem outcomes_congr {ev ev' : Evaluator} (functions : ev.functions = ev'.functions)
    (source : ev.source = ev'.source) (cs : List (Option Condition)) :
    outcomes ctx cs ev = outcomes ctx cs ev' := by
  induction cs generalizing ev ev' with
  | nil => rfl
  | cons c rest ih =>
    obtain ⟨told, left⟩ := evaluateRead_congr functions source ctx c
    rw [outcomes, outcomes, told, ih (by simpa using functions) left]

/-- A condition that cannot be read is false with a warning and leaves those around it what they
are. -/
theorem outcomes_malformed (ctx : EvaluationContext) (cs ds : List (Option Condition))
    (ev : Evaluator) :
    ∃ before behind s, outcomes ctx (cs ++ ds) ev = before ++ behind ∧
      outcomes ctx (cs ++ none :: ds) ev = before ++ .warned .malformed s :: behind := by
  induction cs generalizing ev with
  | nil =>
    refine ⟨[], outcomes ctx ds ev, ev.source, rfl, ?_⟩
    have same : outcomes ctx ds (ev.evaluateRead ctx none).2 = outcomes ctx ds ev := by
      apply outcomes_congr <;> rfl
    rw [List.nil_append, List.nil_append, outcomes, same]
    rfl
  | cons c rest ih =>
    obtain ⟨before, behind, s, without, beside⟩ := ih (ev.evaluateRead ctx c).2
    refine ⟨(ev.evaluateRead ctx c).1 :: before, behind, s, ?_, ?_⟩
    · rw [List.cons_append, outcomes, without, List.cons_append]
    · rw [List.cons_append, outcomes, beside, List.cons_append]

theorem told_evaluateRead {c : Option Condition} {rest : List (Option Condition)}
    {ev : Evaluator} (steady : AllSteady ev.functions (c :: rest)) :
    (ev.evaluateRead ctx c).1.told = toldOf ev.functions ctx c := by
  cases c with
  | none => rfl
  | some c => exact Condition.settled_evaluate ctx c (steady c List.mem_cons_self) ev.source {}

/-- Whatever the evaluator has done before, the same is told of steady conditions. -/
theorem told_outcomes {cs : List (Option Condition)} {ev : Evaluator}
    (steady : AllSteady ev.functions cs) :
    (outcomes ctx cs ev).map Outcome.told = cs.map (toldOf ev.functions ctx) := by
  induction cs generalizing ev with
  | nil => rfl
  | cons c rest ih =>
    have others : AllSteady (ev.evaluateRead ctx c).2.functions rest := by
      rw [functions_evaluateRead]
      exact fun d hd => steady d (List.mem_cons_of_mem _ hd)
    rw [outcomes, List.map_cons, List.map_cons, told_evaluateRead steady, ih others,
      functions_evaluateRead]

/-- The result for an entity with steady conditions depends on the functions of the evaluator
only. -/
theorem process_steady {cs : List (Option Condition)} {ev : Evaluator}
    (steady : AllSteady ev.functions cs) (id : String) (kind : Option EntityKind)
    (metadata : Members Json) (state : GameState) :
    (ev.process id kind metadata cs (.ok state)).1 =
      .tally id (kind.getD (.infer id))
        (cs.map (toldOf ev.functions (givenContext id kind metadata state))) := by
  rw [process_ok, ← EntityResult.tally_told, told_outcomes steady]

theorem functions_evaluateAll (ctx : EvaluationContext) (cs : List (Option Condition))
    (r : EntityResult) (ev : Evaluator) :
    (evaluateAll ctx cs r ev).2.functions = ev.functions := by
  induction cs generalizing r ev with
  | nil => rfl
  | cons c rest ih => rw [evaluateAll, ih, functions_evaluateRead]

/-- Processing an entry changes no function. -/
theorem functions_processEntry (ev : Evaluator) (state : Decoded GameState)
    (entry : BatchEntry) : (ev.processEntry state entry).2.functions = ev.functions := by
  unfold processEntry
  split
  · rfl
  · unfold process
    cases state with
    | refused why => rfl
    | ok state => exact functions_evaluateAll ..

theorem processAll_cons (state : Decoded GameState) (entry : BatchEntry)
    (rest : List BatchEntry) (ev : Evaluator) :
    processAll state (entry :: rest) ev =
      ((ev.processEntry state entry).1 ::
          (processAll state rest (ev.processEntry state entry).2).1,
        (processAll state rest (ev.processEntry state entry).2).2) := rfl

theorem functions_processAll (state : Decoded GameState) (entries : List BatchEntry)
    (ev : Evaluator) : (processAll state entries ev).2.functions = ev.functions := by
  induction entries generalizing ev with
  | nil => rfl
  | cons entry rest ih => rw [processAll_cons, ih, functions_processEntry]

theorem processAll_append (state : Decoded GameState) (before entries : List BatchEntry)
    (ev : Evaluator) :
    processAll state (before ++ entries) ev =
      ((processAll state before ev).1 ++
          (processAll state entries (processAll state before ev).2).1,
        (processAll state entries (processAll state before ev).2).2) := by
  induction before generalizing ev with
  | nil => rfl
  | cons entry rest ih => rw [List.cons_append, processAll_cons, processAll_cons, ih]; rfl

theorem length_processAll (state : Decoded GameState) (entries : List BatchEntry)
    (ev : Evaluator) : (processAll state entries ev).1.length = entries.length := by
  induction entries generalizing ev with
  | nil => rfl
  | cons entry rest ih => rw [processAll_cons, List.length_cons, ih, List.length_cons]

end Evaluator

/-- The entry behind some others is processed by the engine that these leave. -/
theorem RuleEngine.processBatch_at (e : RuleEngine) (state : Decoded GameState)
    (before rest : List BatchEntry) (entry : BatchEntry) :
    (e.processBatch (before ++ entry :: rest) state).1.results[before.length]? =
      some ((e.processBatch before state).2.evaluator.processEntry state entry).1 := by
  have length := Evaluator.length_processAll state before e.evaluator
  rw [processBatch, processBatch, Evaluator.processAll_append]
  simp only [List.getElem?_append_right (Nat.le_of_eq length), length, Nat.sub_self]
  rfl

end EntityRules
