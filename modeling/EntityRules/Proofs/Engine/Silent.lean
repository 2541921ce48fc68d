import EntityRules.Proofs.Engine.Run
import EntityRules.Proofs.Evaluation.Silent
import EntityRules.Proofs.Query.Correctness

/-! Queries that leave the random source alone. -/

namespace EntityRules

/-- The evaluator with another random source. -/
def Evaluator.withSource (ev : Evaluator) (s : RandomSource) : Evaluator := { ev with source := s }

/-- The engine with another random source. -/
def RuleEngine.withSource (e : RuleEngine) (s : RandomSource) : RuleEngine :=
  { e with evaluator := e.evaluator.withSource s }

namespace QueryRules

variable {ev : Evaluator} {cs : List Condition} {state : GameState}

theorem evaluate_withSource {ctx : EvaluationContext} {c : Condition}
    (h : c.IgnoresSource ev.functions ctx) (s : RandomSource) :
    (ev.withSource s).evaluate ctx c =
      ({ (ev.evaluate ctx c).1 with source := s }, (ev.evaluate ctx c).2.withSource s) := by
  have same : c.evaluate ev.functions ctx s =
      { c.evaluate ev.functions ctx ev.source with source := s } := h ev.source s
  unfold Evaluator.evaluate Evaluator.withSource
  dsimp only
  rw [same]
  rfl

theorem holdAll_withSource {ctx : EvaluationContext}
    (h : ∀ c ∈ cs, c.IgnoresSource ev.functions ctx) (s : RandomSource) :
    holdAll ctx cs (ev.withSource s) =
      ((holdAll ctx cs ev).1, (holdAll ctx cs ev).2.withSource s) := by
  induction cs generalizing ev with
  | nil => rfl
  | cons c rest ih =>
    have first := evaluate_withSource (h c List.mem_cons_self) s
    have behind := @ih (ev.evaluate ctx c).2 fun d hd => h d (List.mem_cons_of_mem _ hd)
    rw [holdAll, holdAll, first]
    dsimp only
    split
    · exact behind
    · rfl

theorem keepHolding_withSource (h : ∀ c ∈ cs, ∀ ctx, c.IgnoresSource ev.functions ctx)
    (es : List (EntityRecord Float)) (s : RandomSource) :
    keepHolding state cs es (ev.withSource s) =
      ((keepHolding state cs es ev).1, (keepHolding state cs es ev).2.withSource s) := by
  induction es generalizing ev with
  | nil => rfl
  | cons e rest ih =>
    have functions := @functions_holdAll (contextOf state e) cs ev
    have first := holdAll_withSource (fun c hc => h c hc (contextOf state e)) s
    have behind := @ih (holdAll (contextOf state e) cs ev).2 (functions ▸ h)
    rw [keepHolding, keepHolding, first]
    dsimp only
    rw [behind]

/-- The source does not matter for an answer whose conditions ignore it. -/
theorem answer_withSource {rules : QueryRules} {clock : Int} {catalog : EntityCatalog}
    {graph : RelationshipGraph Float} {filter : QueryFilter} {options : QueryOptions}
    (h : ∀ c ∈ filter.conditions.getD [], ∀ ctx, c.IgnoresSource ev.functions ctx)
    (fetched : List (EntityRecord Float)) (s : RandomSource) :
    rules.answer clock catalog graph filter state options fetched (ev.withSource s) =
      ((rules.answer clock catalog graph filter state options fetched ev).1,
        (rules.answer clock catalog graph filter state options fetched ev).2.withSource s) := by
  unfold answer
  rw [keepHolding_withSource h]
  dsimp only
  split
  · rfl
  · split
    · rfl
    · rfl

end QueryRules

namespace RuleEngine

variable {e e' : RuleEngine} {filter : QueryFilter} {state : GameState} {options : QueryOptions}

theorem withGraph_withSource (e : RuleEngine) (graph : RelationshipGraph Float)
    (s : RandomSource) : (e.withSource s).withGraph graph = (e.withGraph graph).withSource s := by
  unfold withGraph
  dsimp only
  rw [apply_ite (withSource · s)]
  rfl

theorem evaluator_withGraph (e : RuleEngine) (graph : RelationshipGraph Float) :
    (e.withGraph graph).evaluator = e.evaluator := by
  unfold withGraph
  split
  · rfl
  · rfl

theorem fetchKind_withSource (e : RuleEngine) (kind : Option EntityKind) (now : Moment)
    (s : RandomSource) :
    (e.withSource s).fetchKind kind now =
      ((e.fetchKind kind now).1, (e.fetchKind kind now).2.withSource s) := by
  have catalog : (e.withSource s).catalog = e.catalog := rfl
  unfold fetchKind
  rw [catalog]
  split
  · rfl
  · dsimp only
    split
    · rfl
    · next found rest _ =>
      exact congrArg (Prod.mk _) (withGraph_withSource
        { e with catalog := { e.catalog with discoveries := rest } } (e.graph.add found now) s)

theorem evaluator_fetchKind (e : RuleEngine) (kind : Option EntityKind) (now : Moment) :
    (e.fetchKind kind now).2.evaluator = e.evaluator := by
  unfold fetchKind
  split
  · rfl
  · dsimp only
    split
    · rfl
    · exact evaluator_withGraph _ _

theorem fetchKinds_withSource (kinds : List (Option EntityKind)) (e : RuleEngine) (now : Moment)
    (s : RandomSource) :
    fetchKinds now kinds (e.withSource s) =
      ((fetchKinds now kinds e).1, (fetchKinds now kinds e).2.withSource s) := by
  induction kinds generalizing e with
  | nil => rfl
  | cons kind rest ih =>
    rw [fetchKinds, fetchKinds, fetchKind_withSource]
    cases e.fetchKind kind now with
    | mk answer e' =>
      cases answer with
      | error why => rfl
      | ok first =>
        dsimp only
        rw [ih]

theorem evaluator_fetchKinds (kinds : List (Option EntityKind)) (e : RuleEngine) (now : Moment) :
    (fetchKinds now kinds e).2.evaluator = e.evaluator := by
  induction kinds generalizing e with
  | nil => rfl
  | cons kind rest ih =>
    have first := evaluator_fetchKind e kind now
    rw [fetchKinds]
    cases hf : e.fetchKind kind now with
    | mk answer e' =>
      rw [hf] at first
      cases answer with
      | error why => exact first
      | ok found => exact (ih e').trans first

/-- Fetching reads nothing of the evaluator. -/
theorem fetch_withSource (e : RuleEngine) (filter : QueryFilter) (now : Moment)
    (s : RandomSource) :
    (e.withSource s).fetch filter now =
      ((e.fetch filter now).1, (e.fetch filter now).2.withSource s) := by
  unfold fetch
  rw [fetchKinds_withSource]

theorem evaluator_fetch (e : RuleEngine) (filter : QueryFilter) (now : Moment) :
    (e.fetch filter now).2.evaluator = e.evaluator :=
  evaluator_fetchKinds _ e now

/-- The conditions of a query ignore the source, for every entity that they may be evaluated for. -/
def QueryIgnoresSource (e : RuleEngine) (filter : QueryFilter) : Prop :=
  ∀ c ∈ filter.conditions.getD [], ∀ ctx, c.IgnoresSource e.evaluator.functions ctx

theorem runPipeline_of_fetch {fetched : List (EntityRecord Float)} {now : Moment}
    (h : e.fetch filter now = (.ok fetched, e')) :
    e.runPipeline filter state options now =
      let answered := e'.rules.query.answer e'.clock e'.catalog e'.graph filter state options
        fetched e'.evaluator
      (answered.1, { e' with evaluator := answered.2 }) := by
  rw [runPipeline, h]

/-- The source does not matter for a query whose conditions ignore it. -/
theorem runPipeline_withSource (h : e.QueryIgnoresSource filter) (now : Moment)
    (s : RandomSource) :
    (e.withSource s).runPipeline filter state options now =
      ((e.runPipeline filter state options now).1,
        (e.runPipeline filter state options now).2.withSource s) := by
  have moved := fetch_withSource e filter now s
  have evaluator := evaluator_fetch e filter now
  cases hf : e.fetch filter now with
  | mk fetched e' =>
    rw [hf] at moved evaluator
    cases fetched with
    | error why =>
      unfold runPipeline
      rw [moved, hf]
    | ok found =>
      replace moved : (e.withSource s).fetch filter now = (.ok found, e'.withSource s) := moved
      replace evaluator : e'.evaluator = e.evaluator := evaluator
      have answered := @QueryRules.answer_withSource e'.evaluator state e'.rules.query e'.clock
        e'.catalog e'.graph filter options (evaluator ▸ h) found s
      rw [runPipeline_of_fetch moved, runPipeline_of_fetch hf]
      exact congrArg (fun r => (r.1, { e' with evaluator := r.2 })) answered

theorem queryAnew_withSource (h : e.QueryIgnoresSource filter) (now : Moment)
    (s : RandomSource) :
    (e.withSource s).queryAnew filter state options now =
      ((e.queryAnew filter state options now).1,
        (e.queryAnew filter state options now).2.withSource s) := by
  unfold queryAnew
  rw [runPipeline_withSource h]
  cases e.runPipeline filter state options now with
  | mk answer e' =>
    cases answer with
    | error why => rfl
    | ok result => rfl

theorem remember_withSource (e : RuleEngine) (key : Fingerprint) (result : QueryResult)
    (s : RandomSource) :
    (e.withSource s).remember key result =
      ((e.remember key result).1, (e.remember key result).2.withSource s) := by
  have stored : (e.withSource s).results.set key result (e.withSource s).time =
      e.results.set key result e.time := rfl
  unfold remember
  rw [stored]
  split
  · rfl
  · rfl

/-- The engine with other remembered results. -/
def withResults (e : RuleEngine) (results : ResultCache Fingerprint QueryResult Float) :
    RuleEngine :=
  { e with results }

theorem queryRemembered_eq (e : RuleEngine) (key : Fingerprint) (filter : QueryFilter)
    (state : GameState) (options : QueryOptions) (now : Moment) :
    e.queryRemembered key filter state options now =
      match e.results.get key e.time with
      | (some found, results) => (.ok { found with cacheHit := true }, e.withResults results)
      | (none, results) =>
        match (e.withResults results).queryAnew filter state options now with
        | (.error why, after) => (.error why, after)
        | (.ok result, after) =>
          if (e.withResults results).sameSources after then after.remember key result
          else (.ok result, after) := rfl

theorem queryRemembered_withSource (h : e.QueryIgnoresSource filter) (key : Fingerprint)
    (now : Moment) (s : RandomSource) :
    (e.withSource s).queryRemembered key filter state options now =
      ((e.queryRemembered key filter state options now).1,
        (e.queryRemembered key filter state options now).2.withSource s) := by
  have looked : (e.withSource s).results.get key (e.withSource s).time =
      e.results.get key e.time := rfl
  rw [queryRemembered_eq, queryRemembered_eq, looked]
  split
  · rfl
  · next results _ =>
    have moved : (e.withSource s).withResults results = (e.withResults results).withSource s := rfl
    have ignores : (e.withResults results).QueryIgnoresSource filter := h
    rw [moved, queryAnew_withSource ignores]
    cases (e.withResults results).queryAnew filter state options now with
    | mk answer after =>
      cases answer with
      | error why => rfl
      | ok result =>
        have same : ((e.withResults results).withSource s).sameSources (after.withSource s) =
            (e.withResults results).sameSources after := rfl
        dsimp only
        rw [same, remember_withSource]
        split
        · rfl
        · rfl

theorem query_withSource (h : e.QueryIgnoresSource filter) (now : Moment) (s : RandomSource) :
    (e.withSource s).query filter state options now =
      ((e.query filter state options now).1,
        (e.query filter state options now).2.withSource s) := by
  have counted : (e.withSource s).counted = e.counted.withSource s := rfl
  have cacheable : (e.counted.withSource s).isCacheable filter options =
      e.counted.isCacheable filter options := rfl
  have written : (e.withSource s).fingerprint ⟨filter, state, options⟩ =
      e.fingerprint ⟨filter, state, options⟩ := rfl
  have ignores : e.counted.QueryIgnoresSource filter := h
  rw [query_eq, query_eq, counted, cacheable, written]
  split
  · split
    · rfl
    · exact queryRemembered_withSource ignores _ now s
  · exact queryAnew_withSource ignores now s

theorem withSource_self (e : RuleEngine) : e.withSource e.evaluator.source = e := rfl

/-- A query leaves the source as it was if its conditions ignore it. -/
theorem source_query (h : e.QueryIgnoresSource filter) (now : Moment) :
    (e.query filter state options now).2.evaluator.source = e.evaluator.source := by
  have moved := @query_withSource e filter state options h now e.evaluator.source
  rw [withSource_self] at moved
  exact congrArg (fun r => r.2.evaluator.source) moved

/-- The walk that looks for random functions is sound. Where the registered functions ignore the
random source, conditions that pass it come to the same whatever the source holds, and take nothing
from it. A query whose result may be remembered then has the same answer and the same effects with
every source, and leaves the source untouched. -/
theorem deterministic_ignoresSource {table : FunctionTable} (custom : table.IgnoresSource) :
    (∀ cs, Condition.isDeterministic cs = true → ∀ c ∈ cs, ∀ ctx s t,
      c.evaluate table ctx s = { c.evaluate table ctx t with source := s }) ∧
    (∀ e : RuleEngine, e.evaluator.functions = table → ∀ filter options,
      e.isCacheable filter options = true → ∀ state now,
      (e.query filter state options now).2.evaluator.source = e.evaluator.source ∧
      ∀ s, (e.withSource s).query filter state options now =
        ((e.query filter state options now).1,
          (e.query filter state options now).2.withSource s)) := by
  have ignores : ∀ cs, Condition.isDeterministic cs = true → ∀ c ∈ cs, ∀ ctx,
      c.IgnoresSource table ctx := by
    intro cs quiet c hc ctx
    have calls := Condition.callsOnly_of_isDeterministic custom quiet c hc
    exact Condition.ignoresSource_evaluate ctx c calls
  constructor
  · intro cs quiet c hc ctx s t
    exact ignores cs quiet c hc ctx t s
  · rintro e rfl filter options cacheable state now
    have quiet : Condition.isDeterministic (filter.conditions.getD []) = true := by
      simp only [isCacheable, Bool.and_eq_true] at cacheable
      exact cacheable.2
    have asked : e.QueryIgnoresSource filter := ignores _ quiet
    exact ⟨source_query asked now, query_withSource asked now⟩

end RuleEngine

namespace QueryRules.Sample

/-- A registered function: it holds in the small hours. -/
def omen : ConditionFunction := ⟨fun _ ctx s => (.ok (ctx.state.world.hour < 6), s), false⟩

/-- The engine of the market, which can tell an omen. -/
def seer : RuleEngine :=
  { engine with evaluator := { functions := Members.put BuiltIn.table "omen" omen } }

/-- Either there is an omen, or the player has no lamp and something unknown holds. -/
def forebodings : List Condition :=
  [.compound ⟨none, none, none, []⟩ "or"
    [.function ⟨none, none, none, []⟩ "omen" [],
      .compound ⟨none, none, none, []⟩ "and"
        [.compound ⟨none, none, none, []⟩ "not"
          [.function ⟨none, none, none, []⟩ "has_item" [("item_id", .str "lamp")]],
        .unknown ⟨none, none, none, []⟩ (.str "sign")]]]

def ominous : QueryFilter := { filter with conditions := some forebodings }

end QueryRules.Sample

open QueryRules.Sample in
theorem RuleEngine.deterministic_ignoresSource_omen :
    seer.evaluator.functions.IgnoresSource ∧ Condition.isDeterministic forebodings = true ∧
      (∀ c ∈ forebodings, ∀ ctx s t, c.evaluate seer.evaluator.functions ctx s =
        { c.evaluate seer.evaluator.functions ctx t with source := s }) ∧
      seer.isCacheable ominous {} = true ∧
      ∀ s, (seer.withSource s).query ominous state {} noon =
        ((seer.query ominous state {} noon).1,
          (seer.query ominous state {} noon).2.withSource s) := by
  have custom : seer.evaluator.functions.IgnoresSource :=
    BuiltIn.table_ignoresSource.put (fun _ _ => ⟨_, fun _ => rfl⟩) "omen"
  have quiet : Condition.isDeterministic forebodings = true := by decide +kernel
  have cacheable : seer.isCacheable ominous {} = true := by
    decide +kernel
  obtain ⟨conditions, queries⟩ := deterministic_ignoresSource custom
  exact ⟨custom, quiet, conditions _ quiet, cacheable,
    (queries seer rfl _ _ cacheable state noon).2⟩

end EntityRules
