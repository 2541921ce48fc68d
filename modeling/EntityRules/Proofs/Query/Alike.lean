import EntityRules.Proofs.Evaluation.Texts
import EntityRules.Proofs.Query.Inputs

/-! What the stages of a query see of its filter and its state. -/

namespace EntityRules

/-- Conditions that say the same one by one, and look at the same texts, are met by the same. -/
theorem Condition.forall_holds_alike {table : FunctionTable} {ctx ctx' : EvaluationContext}
    (hc : ctx.Alike ctx') {cs cs' : List Condition}
    (calls : ∀ c ∈ cs, CallsOnly (fun f => f.IsSteady ∧ f.IgnoresOrder) table c)
    (h : List.Forall₂ (Alike ctx.state ctx'.state) cs cs') :
    (∀ c ∈ cs, Holds table ctx c) ↔ ∀ c ∈ cs', Holds table ctx' c := by
  induction h with
  | nil => exact iff_of_true nofun nofun
  | cons first _ ih =>
    rw [List.forall_mem_cons] at calls
    rw [List.forall_mem_cons, List.forall_mem_cons, holds_alike hc calls.1 first, ih calls.2]

namespace QueryRules

variable {rules : QueryRules} {clock : Int} {catalog : EntityCatalog}
  {graph : RelationshipGraph Float} {filter filter' : QueryFilter} {state state' : GameState}
  {options : QueryOptions} {ev : Evaluator}

theorem resource_arranged (player : PlayerState) (name otherName : String) :
    resource player.arranged name otherName = resource player name otherName := by
  simp only [resource, PlayerState.arranged, Json.get?_sorted]

theorem resourceAvailable_arranged (state : GameState) (x : EntityRecord Float) :
    resourceAvailable state.arranged x = resourceAvailable state x := by
  simp only [resourceAvailable, GameState.arranged, resource_arranged]

theorem factorHolds_arranged (x : EntityRecord Float) (factor : ContextFactor) :
    rules.factorHolds clock state.arranged x factor = rules.factorHolds clock state x factor := by
  cases factor with
  | resourceAvailable => exact congrArg Except.ok (resourceAvailable_arranged state x)
  | storyAppropriate => rfl
  | playerReady => rfl
  | dramaticTiming => rfl

theorem factorsHold_arranged (x : EntityRecord Float) (names : List String) :
    rules.factorsHold clock state.arranged x names = rules.factorsHold clock state x names := by
  induction names with
  | nil => rfl
  | cons name rest ih => simp only [factorsHold, ih, factorHolds_arranged]

theorem keepFitting_arranged (names : List String) (es : List (EntityRecord Float)) :
    rules.keepFitting clock state.arranged names es = rules.keepFitting clock state names es := by
  induction es with
  | nil => rfl
  | cons x rest ih => rw [keepFitting, keepFitting, factorsHold_arranged, ih]

theorem joined_arranged (es : List (EntityRecord Float)) :
    rules.joined catalog graph filter state.arranged options es =
      rules.joined catalog graph filter state options es := rfl

theorem rank_arranged (es : List (EntityRecord Float)) :
    rules.rank filter state.arranged options es = rules.rank filter state options es := rfl

/-- States that are the same up to the order of members go through all stages behind conditions in
the same way. -/
theorem stages_congr (same : state.arranged = state'.arranged) :
    rules.keepFitting clock state' = rules.keepFitting clock state ∧
      rules.joined catalog graph filter state' options =
        rules.joined catalog graph filter state options ∧
      rules.rank filter state' options = rules.rank filter state options := by
  refine ⟨?_, ?_, ?_⟩
  · funext names es
    rw [← keepFitting_arranged, ← same, keepFitting_arranged]
  · funext es
    rw [← joined_arranged, ← same, joined_arranged]
  · funext es
    rw [← rank_arranged, ← same, rank_arranged]

/-- Conditions leave the same records if they say the same and look at the same texts. -/
theorem keepHolding_alike {cs cs' : List Condition} (same : state.arranged = state'.arranged)
    (calls : ∀ c ∈ cs, c.CallsOnly (fun f => f.IsSteady ∧ f.IgnoresOrder) ev.functions)
    (steady' : ∀ c ∈ cs', c.IsSteady ev.functions)
    (alike : List.Forall₂ (Condition.Alike state state') cs cs') (es : List (EntityRecord Float)) :
    (keepHolding state' cs' es ev).1 = (keepHolding state cs es ev).1 := by
  have steady : ∀ c ∈ cs, c.IsSteady ev.functions :=
    fun c hc common name ps hn f hf => (calls c hc common name ps hn f hf).1
  rw [keepHolding_eq steady, keepHolding_eq steady']
  apply List.filter_congr
  intro x _
  have context : (contextOf state x).Alike (contextOf state' x) := ⟨same, rfl, rfl, rfl⟩
  rw [decide_eq_decide]
  exact (Condition.forall_holds_alike context calls alike).symm

/-- Alike filters ask for the same apart from conditions. -/
theorem filter_eq (h : filter.Alike filter') :
    filter' = { filter with conditions := filter'.conditions } := by
  obtain ⟨kinds, tags, priority, excluded, place, -, factors, window, bounds⟩ := h
  rw [kinds, tags, priority, excluded, place, factors, window, bounds]

theorem isFilled_map {α β : Type} (f : α → β) (xs : Option (List α)) :
    QueryFilter.isFilled (xs.map (List.map f)) = QueryFilter.isFilled xs := by
  cases xs with
  | none => rfl
  | some xs => exact congrArg (!·) List.isEmpty_map

/-- Filters that are alike apply the same. -/
theorem applied_alike (h : filter.Alike filter') : filter'.applied = filter.applied := by
  have filled : QueryFilter.isFilled filter'.conditions = QueryFilter.isFilled filter.conditions := by
    rw [← isFilled_map (fun c => c.encode.arranged) filter'.conditions, ← h.conditions, isFilled_map]
  rw [filter_eq h, QueryFilter.applied, QueryFilter.applied, QueryFilter.set, QueryFilter.set]
  dsimp only
  rw [filled]

theorem rank_alike (h : filter.Alike filter') (es : List (EntityRecord Float)) :
    rules.rank filter' state options es = rules.rank filter state options es := by
  have applied := applied_alike h
  rw [filter_eq h] at applied ⊢
  unfold rank
  rw [applied]
  rfl

/-- The answer is the same for filters that ask for the same in states that are the same, up to the
order of members, as long as conditions look at the same texts. -/
theorem answer_alike (asked : filter.Alike filter') (same : state.arranged = state'.arranged)
    (calls : ∀ c ∈ filter.conditions.getD [],
      c.CallsOnly (fun f => f.IsSteady ∧ f.IgnoresOrder) ev.functions)
    (steady' : ∀ c ∈ filter'.conditions.getD [], c.IsSteady ev.functions)
    (alike : List.Forall₂ (Condition.Alike state state') (filter.conditions.getD [])
      (filter'.conditions.getD []))
    (fetched : List (EntityRecord Float)) :
    (rules.answer clock catalog graph filter' state' options fetched ev).1 =
      (rules.answer clock catalog graph filter state options fetched ev).1 := by
  obtain ⟨fitting, joining, ranking⟩ := @stages_congr rules clock catalog graph filter' state state'
    options same
  have passing : passesFilters filter' = passesFilters filter := by
    rw [filter_eq asked]
    rfl
  have bounded : passesBounds filter' = passesBounds filter := by
    rw [filter_eq asked]
    rfl
  have related : rules.joined catalog graph filter' state options =
      rules.joined catalog graph filter state options := by
    rw [filter_eq asked]
    rfl
  have kept := keepHolding_alike same calls steady' alike (fetched.filter (passesFilters filter))
  unfold answer
  dsimp only
  rw [passing, kept, fitting, ← asked.contextFactors, bounded, joining, related, ranking]
  cases rules.keepFitting clock state (filter.contextFactors.getD []) _ with
  | error why => rfl
  | ok es =>
    dsimp only
    cases rules.joined catalog graph filter state options _ with
    | error why => rfl
    | ok es => exact rank_alike asked es

end QueryRules

end EntityRules
