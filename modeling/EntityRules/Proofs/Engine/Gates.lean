import EntityRules.Proofs.Engine.Run
import EntityRules.Proofs.Engine.Tally
import EntityRules.Proofs.Evaluation.Kindless
import EntityRules.Proofs.Query.Correctness

/-! Three gates for a record: a query, an evaluation of its conditions, and their conjunction. -/

namespace EntityRules

/-- A query for the entities for which conditions hold. -/
def Request.holding (cs : List Condition) (state : GameState) (options : QueryOptions) : Request :=
  { filter := { conditions := some cs }, state, options }

/-- Evaluating conditions for a record, with the metadata of the record, succeeds. -/
def RuleEngine.Admits (e : RuleEngine) (kind : Option EntityKind) (cs : List Condition)
    (state : GameState) (x : EntityRecord Float) : Prop :=
  (e.evaluator.process x.id kind x.metadata (cs.map some) (.ok state)).1.success = true

namespace QueryRules

variable {rules : QueryRules} {clock : Int} {catalog : EntityCatalog}
  {graph : RelationshipGraph Float} {filter : QueryFilter} {state : GameState}
  {options : QueryOptions} {es : List (EntityRecord Float)}

theorem exists_scoreAll_iff :
    (∃ scored, rules.scoreAll filter state es = .ok scored) ↔
      ∀ x ∈ es, ∃ s, rules.scoring.score filter state x = .ok s := by
  constructor
  · rintro ⟨scored, h⟩ x hx
    exact ⟨_, (scoreAll_eq_ok h).1 x hx⟩
  · intro h
    suffices all : ∃ scored, (es.mapM fun x =>
        (rules.scoring.score filter state x).map fun s => (x, s)) = .ok scored by
      obtain ⟨scored, hs⟩ := all
      exact ⟨scored, mapError_eq_ok.mpr hs⟩
    induction es with
    | nil => exact ⟨[], rfl⟩
    | cons x rest ih =>
      obtain ⟨⟨s, hs⟩, others⟩ := List.forall_mem_cons.mp h
      obtain ⟨scored, ho⟩ := ih others
      refine ⟨(x, s) :: scored, ?_⟩
      rw [List.mapM_cons]
      exact bind_eq_ok.mpr ⟨_, map_eq_ok.mpr ⟨s, hs, rfl⟩, bind_eq_ok.mpr ⟨scored, ho, rfl⟩⟩

/-- Records are ranked if all of them can be scored and the number of results is known. -/
theorem exists_rank_iff :
    (∃ r, rules.rank filter state options es = .ok r) ↔
      (∃ n, rules.limit options = .ok n) ∧
        ∀ x ∈ es, ∃ s, rules.scoring.score filter state x = .ok s := by
  rw [← exists_scoreAll_iff]
  constructor
  · rintro ⟨r, h⟩
    obtain ⟨scored, n, hs, hn, -⟩ := rank_eq_ok h
    exact ⟨⟨n, hn⟩, ⟨scored, hs⟩⟩
  · rintro ⟨⟨n, hn⟩, ⟨scored, hs⟩⟩
    exact ⟨_, except_bind_eq_ok.mpr ⟨scored, hs, map_eq_ok.mpr ⟨n, hn, rfl⟩⟩⟩

/-- Without a range of scores, a ranking from which nothing was cut lists what it was given. -/
theorem entities_perm_of_rank (unbounded : filter.softBounds = none) {r : QueryResult}
    (h : rules.rank filter state options es = .ok r) (all : r.entities.length = r.total) :
    r.entities.Perm es := by
  obtain ⟨scored, n, hs, -, rfl⟩ := rank_eq_ok h
  obtain ⟨-, rfl⟩ := scoreAll_eq_ok hs
  have every : ∀ x : Scored, inScoreRange filter x.2 = true := by
    intro x
    rw [inScoreRange, unbounded]
    rfl
  simp only [every, List.filter_true, List.length_map, List.length_take] at all ⊢
  rw [List.take_of_length_le (by omega)]
  have records : (es.map fun x => (x, scoreOf rules filter state x)).map Prod.fst = es := by
    rw [List.map_map]
    exact List.map_id es
  exact ((sortBy_perm options.sortBy _).map Prod.fst).trans (.of_eq records)

theorem keepFitting_nil (es : List (EntityRecord Float)) :
    rules.keepFitting clock state [] es = .ok es := by
  induction es with
  | nil => rfl
  | cons x rest ih =>
    rw [keepFitting, factorsHold, ih]
    rfl

/-- A query for conditions alone ranks the records for which they hold. -/
theorem answer_holding (unrelated : options.includeRelated = false) (cs : List Condition)
    (fetched : List (EntityRecord Float)) (ev : Evaluator) :
    (rules.answer clock catalog graph { conditions := some cs } state options fetched ev).1 =
      rules.rank { conditions := some cs } state options (keepHolding state cs fetched ev).1 := by
  have unfiltered : fetched.filter (passesFilters { conditions := some cs }) = fetched :=
    List.filter_eq_self.mpr fun _ _ => rfl
  have unbounded : ∀ es, List.filter (passesBounds { conditions := some cs }) es = es :=
    fun _ => List.filter_eq_self.mpr fun _ _ => rfl
  unfold answer
  dsimp only [Option.getD_some, Option.getD_none]
  rw [unfiltered, keepFitting_nil]
  dsimp only
  rw [joined, unrelated, unbounded]
  rfl

end QueryRules

namespace RuleEngine

variable {e : RuleEngine} {cs : List Condition} {state : GameState} {options : QueryOptions}

/-- Evaluating steady conditions that do not look at kinds for a record succeeds exactly if all of
them hold. -/
theorem admits_iff (steady : ∀ c ∈ cs, c.IsSteady e.evaluator.functions)
    (kindless : ∀ c ∈ cs, c.CallsOnly ConditionFunction.IgnoresKind e.evaluator.functions)
    (kind : Option EntityKind) (x : EntityRecord Float) :
    e.Admits kind cs state x ↔
      ∀ c ∈ cs, c.Holds e.evaluator.functions (QueryRules.contextOf state x) := by
  rw [Admits, Evaluator.process_steady (Condition.allSteady_some steady), EntityResult.tally]
  simp only [List.all_map, List.all_eq_true, Function.comp_apply]
  have context : Evaluator.givenContext x.id kind x.metadata state =
      (QueryRules.contextOf state x).ofKind (some (kind.getD (.infer x.id))) := rfl
  refine forall₂_congr fun c hc => ?_
  rw [Condition.result_toldOf (steady c hc), context, Condition.holds_ofKind (kindless c hc)]

/-- A query for a single comparison ranks all records or none. -/
theorem compute_simple (memory : e.catalog.InMemory) (unrelated : options.includeRelated = false)
    {common : Condition.Common} {path operator : String} {value : Json} {op : Comparison} {b : Bool}
    (known : Vocabulary.ofName? operator = some op)
    (told : (state.view.resolve path).bind (·.compare op (.ofJson value)) = .ok b) (now : Moment) :
    e.compute (.holding [.simple common path operator value] state options) now =
      e.rules.query.rank { conditions := some [.simple common path operator value] } state options
        (if b then e.catalog.all else []) := by
  rw [compute_eq memory, Request.holding, QueryRules.distinct_requests memory,
    QueryRules.answer_holding unrelated, QueryRules.keepHolding_simple known told]
  rfl

open Classical in
/-- The pipeline ranks the records that evaluation admits. -/
theorem compute_holding (memory : e.catalog.InMemory)
    (steady : ∀ c ∈ cs, c.IsSteady e.evaluator.functions)
    (kindless : ∀ c ∈ cs, c.CallsOnly ConditionFunction.IgnoresKind e.evaluator.functions)
    (unrelated : options.includeRelated = false) (kind : Option EntityKind) (now : Moment) :
    e.compute (.holding cs state options) now =
      e.rules.query.rank { conditions := some cs } state options
        (e.catalog.all.filter fun x => e.Admits kind cs state x) := by
  have fetched := QueryRules.distinct_requests memory { conditions := some cs }
  rw [compute_eq memory, Request.holding, fetched, QueryRules.answer_holding unrelated,
    QueryRules.keepHolding_eq steady]
  simp only [admits_iff steady kindless]
  rfl

/-- The three gates agree for conditions that look neither at the random source nor at the kind of
an entity, whatever kind the evaluation is told. A query for conditions alone, if it is answered
anew and nothing is cut off, lists a record exactly if evaluating the conditions for it succeeds,
and for at least one condition that is so exactly if their conjunction holds. The query is answered
unless the number of results or the score of an admitted record cannot be told. -/
theorem ask_holding_iff (memory : e.catalog.InMemory)
    (steady : ∀ c ∈ cs, c.IsSteady e.evaluator.functions)
    (kindless : ∀ c ∈ cs, c.CallsOnly ConditionFunction.IgnoresKind e.evaluator.functions)
    (unrelated : options.includeRelated = false) (kind : Option EntityKind) (now : Moment) :
    (∀ r, (e.ask (.holding cs state options) now).1 = .ok r → r.cacheHit = false →
      r.entities.length = r.total →
        ∀ x ∈ e.catalog.all, x ∈ r.entities ↔ e.Admits kind cs state x) ∧
    ((∃ r, e.compute (.holding cs state options) now = .ok r) ↔
      (∃ n, e.rules.query.limit options = .ok n) ∧
        ∀ x ∈ e.catalog.all, e.Admits kind cs state x →
          ∃ s, e.rules.query.scoring.score { conditions := some cs } state x = .ok s) ∧
    (cs ≠ [] → ∀ common x s, e.Admits kind cs state x ↔
      (Condition.evaluate e.evaluator.functions (QueryRules.contextOf state x)
        (.compound common "and" cs) s).result = true) := by
  classical
  refine ⟨?_, ?_, ?_⟩
  · intro r hr new all x hx
    have computed : e.compute (.holding cs state options) now = .ok r := by
      rcases (answered_ask memory _ now).answer r hr with ⟨entry, -, -, rfl⟩ | computed
      · cases new
      · exact computed
    rw [compute_holding memory steady kindless unrelated kind] at computed
    have perm := QueryRules.entities_perm_of_rank rfl computed all
    rw [perm.mem_iff, List.mem_filter, decide_eq_true_eq, and_iff_right hx]
  · rw [compute_holding memory steady kindless unrelated kind, QueryRules.exists_rank_iff]
    simp only [List.mem_filter, decide_eq_true_eq, and_imp]
  · intro filled common x s
    rw [admits_iff steady kindless, Condition.evaluate_and, List.isEmpty_eq_false_iff.mpr filled,
      if_neg Bool.false_ne_true, Condition.result_until_iff steady]

namespace Sample

open QueryRules.Sample

/-- The player has to have a lamp. -/
def lamp : List Condition := [.function ⟨none, none, none, []⟩ "has_item" [("item_id", .str "lamp")]]

def lampBearers : Request :=
  .holding lamp QueryRules.Sample.state { maxResults := some 4, sortBy := "found", useCache := false }

/-- An engine with a single record, of a level that is beyond all others. -/
def lofty : RuleEngine :=
  { engine with
    catalog := .ofList [{ entity "a" .quest 1 with requiredLevel := some (Int.pow 10 400) }] }

end Sample

open QueryRules.Sample (engine noon) in
theorem ask_holding_iff_market :
    engine.catalog.InMemory ∧
      (∀ c ∈ Sample.lamp, c.IsSteady engine.evaluator.functions) ∧
      (∀ c ∈ Sample.lamp, c.CallsOnly ConditionFunction.IgnoresKind engine.evaluator.functions) ∧
      Sample.lampBearers.options.includeRelated = false ∧
      ∃ r, (engine.ask Sample.lampBearers noon).1 = .ok r ∧ r.cacheHit = false ∧
        r.entities.length = r.total ∧ ∀ x ∈ engine.catalog.all,
          x ∈ r.entities ↔ engine.Admits none Sample.lamp Sample.lampBearers.state x := by
  have memory : engine.catalog.InMemory := EntityCatalog.inMemory_ofList _
  have steady : ∀ c ∈ Sample.lamp, c.IsSteady engine.evaluator.functions :=
    Condition.isSteady_of_isDeterministic BuiltIn.table_drawsByName (by decide)
  have answered : (engine.ask Sample.lampBearers noon).1.toOption.map
      (fun r => (r.cacheHit, r.entities.length, r.total)) = some (false, 4, 4) := by
    decide +kernel
  have kindless : ∀ c ∈ Sample.lamp,
      c.CallsOnly ConditionFunction.IgnoresKind engine.evaluator.functions :=
    fun c _ => BuiltIn.table_ignoresKind.callsOnly c
  refine ⟨memory, steady, kindless, rfl, ?_⟩
  cases hr : (engine.ask Sample.lampBearers noon).1 with
  | error why => simp [hr, Except.toOption] at answered
  | ok r =>
    simp only [hr, Except.toOption, Option.map_some, Option.some.injEq, Prod.mk.injEq] at answered
    obtain ⟨new, listed, total⟩ := answered
    have agree := @ask_holding_iff engine Sample.lamp Sample.lampBearers.state
      Sample.lampBearers.options memory steady kindless rfl none noon
    exact ⟨r, rfl, new, listed.trans total.symm, agree.1 r hr new (listed.trans total.symm)⟩

open QueryRules.Sample (noon) in
/-- Evaluation admits the lofty record, but the query fails: the distance to the level of the record
is beyond the range of doubles, so it has no score. -/
theorem ask_holding_unscored :
    (∀ x ∈ Sample.lofty.catalog.all,
      Sample.lofty.Admits none Sample.lamp Sample.lampBearers.state x) ∧
    (match (Sample.lofty.ask Sample.lampBearers noon).1 with
      | .error (.reported why) => why.message
      | _ => "") = "Query execution failed: integer division result too large for a float" := by
  have admits : ∀ x ∈ Sample.lofty.catalog.all, (Sample.lofty.evaluator.process x.id none x.metadata
      (Sample.lamp.map some) (.ok Sample.lampBearers.state)).1.success = true := by
    decide +kernel
  exact ⟨admits, by decide +kernel⟩

end RuleEngine

end EntityRules
