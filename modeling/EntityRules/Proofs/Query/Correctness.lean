import EntityRules.Proofs.Query.Stages

/-! The pipeline computes what a query asks for. -/

namespace EntityRules

namespace QueryRules

variable {rules : QueryRules} {clock : Int} {functions : FunctionTable} {catalog : EntityCatalog}
  {graph : RelationshipGraph Float} {filter : QueryFilter} {state : GameState}
  {options : QueryOptions} {e : EntityRecord Float}

theorem passesFilters_iff :
    passesFilters filter e = true ↔
      e.id ∉ filter.excludeIds.getD [] ∧ passesTags filter e = true ∧
        passesPriority filter e = true ∧ passesLocation filter e = true ∧
        passesWindow filter e = true := by
  simp [passesFilters, and_assoc]

/-- A record is eligible when it passes all stages that look at single records. -/
theorem eligible_iff :
    Eligible rules clock functions filter state e ↔
      passesFilters filter e = true ∧
      (∀ c ∈ filter.conditions.getD [], c.Holds functions (contextOf state e)) ∧
      (∀ name ∈ filter.contextFactors.getD [], ∀ factor,
        Vocabulary.ofName? name = some factor → rules.factorHolds clock state e factor = .ok true) ∧
      passesBounds filter e = true := by
  rw [passesFilters_iff, passesTags_iff, passesPriority_iff, passesLocation_iff, passesWindow_iff,
    passesBounds_iff]
  constructor
  · rintro ⟨h₁, h₂, h₃, h₄, h₅, h₆, h₇, h₈, h₉, h₁₀, h₁₁, h₁₂⟩
    exact ⟨⟨h₁, h₂, ⟨h₃, h₄⟩, h₅, h₆, h₇⟩, h₈, h₉, h₁₀, h₁₁, h₁₂⟩
  · rintro ⟨⟨h₁, h₂, ⟨h₃, h₄⟩, h₅, h₆, h₇⟩, h₈, h₉, h₁₀, h₁₁, h₁₂⟩
    exact ⟨h₁, h₂, h₃, h₄, h₅, h₆, h₇, h₈, h₉, h₁₀, h₁₁, h₁₂⟩

theorem nodup_distinct (seen : List String) (es : List (EntityRecord Float)) :
    ((distinct seen es).map (·.id)).Nodup ∧ ∀ e ∈ distinct seen es, e.id ∉ seen := by
  induction es generalizing seen with
  | nil => simp [distinct]
  | cons e rest ih =>
    rw [distinct]
    split
    · exact ih seen
    · next new =>
      obtain ⟨nodup, unseen⟩ := ih (e.id :: seen)
      constructor
      · rw [List.map_cons, List.nodup_cons]
        refine ⟨?_, nodup⟩
        intro again
        obtain ⟨e', he', same⟩ := List.mem_map.mp again
        exact unseen e' he' (same ▸ List.mem_cons_self)
      · intro e' he'
        rcases List.mem_cons.mp he' with rfl | he'
        · exact new
        · exact fun old => unseen e' he' (List.mem_cons_of_mem _ old)

theorem nodup_chosen (h : catalog.InMemory) :
    ((chosen rules clock functions catalog filter state).map (·.id)).Nodup := by
  have requests := (nodup_distinct [] ((requests filter).flatMap catalog.ofKind)).1
  rw [distinct_requests h] at requests
  exact requests.sublist (List.filter_sublist.map _)

open Classical Members in
/-- The identifiers of what is brought in are the targets that bring it in. -/
theorem nodup_broughtBy (h : catalog.InMemory) (listed : List (EntityRecord Float)) :
    ((broughtBy rules catalog graph filter state listed).map (·.id)).Nodup ∧
      ∀ e ∈ broughtBy rules catalog graph filter state listed, e.id ∉ listed.map (·.id) := by
  have own : ∀ targets : List String,
      ((targets.filterMap catalog.get?).map (·.id)).Sublist targets := by
    intro targets
    induction targets with
    | nil => simp
    | cons target rest ih =>
      cases he : catalog.get? target with
      | none =>
        rw [List.filterMap_cons_none he]
        exact ih.cons target
      | some e =>
        rw [List.filterMap_cons_some he, List.map_cons, (h.get?_eq_some.mp he).2]
        exact ih.cons_cons target
  constructor
  · exact (nodup_eraseDups _).sublist (own _)
  · intro e he
    have target := (own _).subset (List.mem_map_of_mem he)
    rw [List.mem_eraseDups, List.mem_map] at target
    obtain ⟨r, hr, same⟩ := target
    have brings := of_decide_eq_true (List.mem_filter.mp hr).2
    exact same ▸ brings.2.1

theorem nodup_found (h : catalog.InMemory) :
    ((found rules clock functions catalog graph filter state options).map (·.id)).Nodup := by
  have brought : ((broughtBy rules catalog graph filter state _).map (·.id)).Nodup ∧ _ :=
    nodup_broughtBy h (chosen rules clock functions catalog filter state)
  obtain ⟨nodup, apart⟩ := brought
  unfold found
  rw [List.map_append, List.nodup_append']
  refine ⟨nodup_chosen h, ?_, ?_⟩
  · split
    · exact nodup
    · simp
  · split
    · intro id listed again
      obtain ⟨e, he, rfl⟩ := List.mem_map.mp again
      exact apart e he listed
    · simp

theorem mem_all_of_mem_found (h : catalog.InMemory)
    (he : e ∈ found rules clock functions catalog graph filter state options) :
    e ∈ catalog.all := by
  unfold found at he
  rcases List.mem_append.mp he with he | he
  · have requests := List.mem_of_mem_filter he
    unfold requested at requests
    split at requests
    · exact requests
    · exact requests
    · obtain ⟨k, -, hk⟩ := List.mem_flatMap.mp requests
      exact List.mem_of_mem_filter hk
  · split at he
    · obtain ⟨id, -, hid⟩ := List.mem_filterMap.mp he
      exact (h.get?_eq_some.mp hid).1
    · cases he

open Classical in
/-- Passing the stages for single records one after another is being chosen. -/
theorem filter_stages {ev : Evaluator}
    (steady : ∀ c ∈ filter.conditions.getD [], c.IsSteady ev.functions)
    {kept : List (EntityRecord Float)}
    (fitting : rules.keepFitting clock state (filter.contextFactors.getD [])
      (keepHolding state (filter.conditions.getD [])
        ((requested catalog filter).filter (passesFilters filter)) ev).1 = .ok kept) :
    kept.filter (passesBounds filter) =
      chosen rules clock ev.functions catalog filter state := by
  rw [keepFitting_eq_ok fitting, keepHolding_eq steady, chosen, List.filter_filter,
    List.filter_filter, List.filter_filter]
  apply List.filter_congr
  intro e _
  rw [Bool.eq_iff_iff]
  simp only [Bool.and_eq_true, decide_eq_true_eq, eligible_iff]
  tauto

theorem Arranged.perm {name : String} {xs ys : List Scored} (h : Arranged name xs ys) :
    ys.Perm xs := by
  unfold Arranged at h
  split at h
  · exact StablyDescends.perm h
  · exact .of_eq h

/-- Sorting by the strategy of a name arranges what is ranked. -/
theorem arranged_sortBy (h : catalog.InMemory)
    (numbers : options.sortBy = "priority" → ∀ x ∈ catalog.all, x.priority.isNaN = false)
    (scored : ∀ x ∈ found rules clock functions catalog graph filter state options,
      rules.scoring.score filter state x = .ok (scoreOf rules filter state x)) :
    Arranged options.sortBy (ranked rules clock functions catalog graph filter state options)
      (sortBy options.sortBy
        (ranked rules clock functions catalog graph filter state options)) := by
  have origin : ∀ x ∈ ranked rules clock functions catalog graph filter state options,
      x.1 ∈ found rules clock functions catalog graph filter state options ∧
        x.2 = scoreOf rules filter state x.1 := by
    intro x hx
    obtain ⟨e, he, rfl⟩ := List.mem_map.mp (List.mem_of_mem_filter hx)
    exact ⟨he, rfl⟩
  unfold Arranged
  cases known : (Vocabulary.ofName? options.sortBy : Option SortStrategy) with
  | none =>
    rw [sortBy, known]
  | some strategy =>
    apply sortBy_stable known
    · intro x hx
      obtain ⟨he, hs⟩ := origin x hx
      rw [hs]
      exact isNaN_score (scored x.1 he)
    · rintro rfl x hx
      have name := (Vocabulary.name_of_ofName? known).symm
      exact numbers name x.1 (mem_all_of_mem_found h (origin x hx).1)

open Classical in
theorem answers_of_rank (h : catalog.InMemory)
    (numbers : options.sortBy = "priority" → ∀ x ∈ catalog.all, x.priority.isNaN = false)
    {r : QueryResult}
    (ranking : rules.rank filter state options
      (found rules clock functions catalog graph filter state options) = .ok r) :
    Answers rules clock functions catalog graph filter state options r := by
  obtain ⟨items, limit, scoring, limiting, rfl⟩ := rank_eq_ok ranking
  obtain ⟨scored, rfl⟩ := scoreAll_eq_ok scoring
  have within : ((found rules clock functions catalog graph filter state options).map
      fun e => (e, scoreOf rules filter state e)).filter (fun x => inScoreRange filter x.2) =
      ranked rules clock functions catalog graph filter state options := by
    apply List.filter_congr
    intro x _
    rw [Bool.eq_iff_iff, inScoreRange_iff, decide_eq_true_eq]
  have arranged := arranged_sortBy h numbers scored
  rw [← within] at arranged
  constructor
  · exact scored
  · exact nodup_found h
  · exact within ▸ arranged.perm.length_eq
  · exact ⟨_, limit, within ▸ arranged, limiting, rfl, rfl⟩
  · rfl
  · rfl
  · rfl
  · rfl

end QueryRules

/-- The pipeline answers a query with what it means, whenever it answers. -/
theorem RuleEngine.runPipeline_answers {e : RuleEngine} (memory : e.catalog.InMemory)
    {filter : QueryFilter} {state : GameState} {options : QueryOptions} {now : Moment}
    (steady : ∀ c ∈ filter.conditions.getD [], c.IsSteady e.evaluator.functions)
    (numbers : options.sortBy = "priority" → ∀ x ∈ e.catalog.all, x.priority.isNaN = false)
    {r : QueryResult} (h : (e.runPipeline filter state options now).1 = .ok r) :
    QueryRules.Answers e.rules.query e.clock e.evaluator.functions e.catalog e.graph filter state
      options r := by
  rw [runPipeline, fetch_inMemory memory, QueryRules.distinct_requests memory] at h
  simp only [QueryRules.answer] at h
  split at h
  · cases h
  · next kept fitting =>
    split at h
    · cases h
    · next es joining =>
      rw [QueryRules.filter_stages steady fitting] at joining
      obtain rfl := QueryRules.joined_eq_ok joining
      exact QueryRules.answers_of_rank memory numbers h

namespace QueryRules.Sample

def entity (id : String) (kind : EntityKind) (priority : Float) : EntityRecord Float :=
  { id, kind, name := none, tags := ["market"], priority, location := none, requiredLevel := none
    storyRelevance := none, playerAlignment := none, difficulty := none, timestamp := none
    availableFrom := none, availableUntil := none, requiredPhase := none, requirements := none
    minEventInterval := none, resourceRequirements := none, metadata := [], extras := [] }

def market : EntityCatalog :=
  .ofList [entity "a" .quest 1, entity "b" .item 3, entity "c" .quest 2, entity "d" .npc 9]

theorem noon_inRange : Moment.Fields.InRange ⟨2026, 3, 1, 12, 0, 0, 0, some 0⟩ := by decide

def noon : Moment := ⟨⟨2026, 3, 1, 12, 0, 0, 0, some 0⟩, noon_inRange⟩

def edge (source target : String) : Relationship Float :=
  { id := source ++ target, source, target, type := .synergy, strength := 0.75
    bidirectional := false, conditions := none, metadata := .fresh noon none }

def graph : RelationshipGraph Float :=
  { options := {
      strengthDecay := .whole 1, indirectDepth := .whole 3, pathHops := .whole 6
      hubFactor := .whole 2, cacheCapacity := .whole 8 }
    outgoing := [("c", [edge "c" "d", edge "c" "e"])]
    incoming := [("d", [edge "c" "d"]), ("e", [edge "c" "e"])]
    registered := [], metadata := .fresh noon, revision := 0
    analyses := { name := "analyses", capacity := .whole 8, room := 8, ttl := none }
    paths := { name := "paths", capacity := .whole 8, room := 8, ttl := none } }

def rules : QueryRules :=
  { scoring := {
      weights := { priority := 0.5, tags := 0.5, location := 0, level := 0, story := 0 }
      priorityScale := .fractional 10, levelWindow := .whole 5 }
    maxResults := .whole 3, relatedMinStrength := .fractional 0.5, dramaticInterval := .whole 60 }

def engine : RuleEngine :=
  { rules := {
      query := rules, cacheEnabled := true, recommendedScore := (0, 1), recommendedAlignment := 0
      recommendedResults := 3, workers := .whole 1 }
    evaluator := {}, catalog := market, graph, clock := 0
    results := { name := "results", capacity := .whole 8, room := 8, ttl := none } }

/-- One kind is asked for twice, and the player has what the condition asks for. -/
def filter : QueryFilter :=
  { entityTypes := some [.quest, .item, .quest], tags := some ["market"]
    conditions := some [.function ⟨none, none, none, []⟩ "has_item" [("item_id", .str "lamp")]] }

def state : GameState := { player := { items := ["lamp"] } }

def options : QueryOptions := { includeRelated := true, sortBy := "priority" }

end QueryRules.Sample

open QueryRules.Sample in
theorem RuleEngine.runPipeline_answers_market :
    engine.catalog.InMemory ∧
      (∀ c ∈ filter.conditions.getD [], c.IsSteady engine.evaluator.functions) ∧
      (options.sortBy = "priority" → ∀ x ∈ engine.catalog.all, x.priority.isNaN = false) ∧
      ∃ r, (engine.runPipeline filter state options noon).1 = .ok r ∧
        QueryRules.Answers engine.rules.query engine.clock engine.evaluator.functions
          engine.catalog engine.graph filter state options r := by
  have memory : engine.catalog.InMemory := EntityCatalog.inMemory_ofList _
  have steady : ∀ c ∈ filter.conditions.getD [], c.IsSteady engine.evaluator.functions :=
    Condition.isSteady_of_isDeterministic BuiltIn.table_drawsByName (by decide)
  have numbers : ∀ x ∈ engine.catalog.all, x.priority.isNaN = false := by decide +kernel
  have answered : (engine.runPipeline filter state options noon).1.isOk = true := by
    decide +kernel
  refine ⟨memory, steady, fun _ => numbers, ?_⟩
  cases hr : (engine.runPipeline filter state options noon).1 with
  | error why => simp [hr, Except.isOk, Except.toBool] at answered
  | ok r => exact ⟨r, rfl, runPipeline_answers memory steady (fun _ => numbers) hr⟩

/-- Without a strategy the records stay as they were found: kind by kind, then the related one. -/
example :
    (QueryRules.Sample.engine.runPipeline QueryRules.Sample.filter QueryRules.Sample.state
      { includeRelated := true, sortBy := "found" } QueryRules.Sample.noon).1.toOption.map
        (fun r => r.entities.map (·.id)) = some ["a", "c", "b"] := by
  decide +kernel

end EntityRules
