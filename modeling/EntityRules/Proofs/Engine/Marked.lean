import EntityRules.Proofs.Engine.Remembered
import EntityRules.Proofs.Query.Marked
import EntityRules.Proofs.Query.Writable

/-! Naive times count as UTC for an engine. -/

namespace EntityRules

open GameState (MixedTimes)

/-- A request with the naive times of its filter and its state marked UTC. -/
def Request.marked (q : Request) : Request := ⟨q.filter.marked, q.state.marked, q.options⟩

/-- Dramatic timing is asked for where naive event times stand among others. -/
def Request.Mixes (q : Request) : Prop := q.UsesClock ∧ MixedTimes q.state.times

/-- A failure with the naive times of the filter that it reports marked UTC. -/
def QueryFailure.marked : QueryFailure → QueryFailure
  | .reported (.pipeline why filter options) => .reported (.pipeline why filter.marked options)
  | other => other

/-- An answer with its naive times marked UTC, whether it is a result or a failure. -/
def QueryResult.markedAnswer (out : Except QueryFailure QueryResult) :
    Except QueryFailure QueryResult :=
  (out.map QueryResult.marked).mapError QueryFailure.marked

namespace RuleEngine

open QueryResult (markedAnswer)

variable {e e' : RuleEngine} {q q' : Request}

/-- Engines with the same rules and the same graph at the same time of day, whose records are the
same up to marks. What they have counted and what they remember may differ. -/
structure SameUpToMarks (e e' : RuleEngine) : Prop where
  rules : e'.rules = e.rules
  clock : e'.clock = e.clock
  graph : e'.graph = e.graph
  lifetime : e'.results.ttl = e.results.ttl
  catalog : e'.catalog.marked = e.catalog.marked

theorem SameUpToMarks.withGraph (h : SameUpToMarks e e') (g : RelationshipGraph Float) :
    SameUpToMarks (e.withGraph g) (e'.withGraph g) := by
  obtain ⟨rules, clock, graph, lifetime, catalog⟩ := h
  unfold RuleEngine.withGraph
  rw [graph]
  split <;> exact ⟨rules, clock, rfl, lifetime, catalog⟩

theorem SameUpToMarks.fetchKind (h : SameUpToMarks e e') (kind : Option EntityKind)
    (now : Moment) :
    (e'.fetchKind kind now).1.map (List.map EntityRecord.marked) =
        (e.fetchKind kind now).1.map (List.map EntityRecord.marked) ∧
      SameUpToMarks (e.fetchKind kind now).2 (e'.fetchKind kind now).2 := by
  have failure : e'.catalog.marked.failure = e.catalog.marked.failure :=
    congrArg EntityCatalog.failure h.catalog
  have discoveries : e'.catalog.marked.discoveries = e.catalog.marked.discoveries :=
    congrArg EntityCatalog.discoveries h.catalog
  replace failure : e'.catalog.failure = e.catalog.failure := failure
  replace discoveries : e'.catalog.discoveries = e.catalog.discoveries := discoveries
  have records : (e'.catalog.ofKind kind).map EntityRecord.marked =
      (e.catalog.ofKind kind).map EntityRecord.marked := by
    rw [← EntityCatalog.ofKind_marked, h.catalog, EntityCatalog.ofKind_marked]
  unfold RuleEngine.fetchKind
  rw [failure, discoveries]
  cases e.catalog.failure with
  | some message => exact ⟨rfl, h⟩
  | none =>
    refine ⟨?_, ?_⟩
    · cases e.catalog.discoveries <;> exact congrArg Except.ok records
    · cases e.catalog.discoveries with
      | nil => exact h
      | cons found rest =>
        obtain ⟨rules, clock, graph, lifetime, catalog⟩ := h
        dsimp only
        rw [graph]
        apply SameUpToMarks.withGraph
        refine ⟨rules, clock, rfl, lifetime, ?_⟩
        exact congrArg (fun c : EntityCatalog => { c with discoveries := rest }) catalog

theorem SameUpToMarks.fetchKinds (h : SameUpToMarks e e') (kinds : List (Option EntityKind))
    (now : Moment) :
    (RuleEngine.fetchKinds now kinds e').1.map (List.map EntityRecord.marked) =
        (RuleEngine.fetchKinds now kinds e).1.map (List.map EntityRecord.marked) ∧
      SameUpToMarks (RuleEngine.fetchKinds now kinds e).2
        (RuleEngine.fetchKinds now kinds e').2 := by
  induction kinds generalizing e e' with
  | nil => exact ⟨rfl, h⟩
  | cons kind rest ih =>
    obtain ⟨records, same⟩ := h.fetchKind kind now
    unfold RuleEngine.fetchKinds
    generalize e.fetchKind kind now = first at records same ⊢
    generalize e'.fetchKind kind now = first' at records same ⊢
    obtain ⟨fetched, left⟩ := first
    obtain ⟨fetched', left'⟩ := first'
    rcases map_eq_map_cases records with
      ⟨why, rfl, rfl⟩ | ⟨es, es', rfl, rfl, here⟩
    · exact ⟨rfl, same⟩
    · obtain ⟨others, still⟩ := ih same
      refine ⟨?_, still⟩
      dsimp only
      rcases map_eq_map_cases others with
        ⟨why, left, right⟩ | ⟨more, more', left, right, there⟩
      · rw [left, right]
        rfl
      · rw [left, right]
        refine congrArg Except.ok ?_
        rw [List.map_append, List.map_append, here, there]

theorem SameUpToMarks.fetch (h : SameUpToMarks e e') (asked : q'.marked = q.marked)
    (now : Moment) :
    (e'.fetch q'.filter now).1.map (List.map EntityRecord.marked) =
        (e.fetch q.filter now).1.map (List.map EntityRecord.marked) ∧
      SameUpToMarks (e.fetch q.filter now).2 (e'.fetch q'.filter now).2 := by
  obtain ⟨filters, -, -⟩ := Request.mk.inj asked
  have requests : QueryRules.requests q'.filter = QueryRules.requests q.filter := by
    rw [← QueryRules.requests_marked, filters, QueryRules.requests_marked]
  obtain ⟨records, same⟩ := h.fetchKinds (QueryRules.requests q.filter) now
  unfold RuleEngine.fetch
  rw [requests]
  refine ⟨?_, same⟩
  dsimp only
  rcases map_eq_map_cases records with
    ⟨why, left, right⟩ | ⟨es, es', left, right, here⟩
  · rw [left, right]
  · rw [left, right]
    refine congrArg Except.ok ?_
    rw [← QueryRules.distinct_marked, here, QueryRules.distinct_marked]

/-- What the pipeline comes to is the same up to marks, unless it fails over mixed times. -/
theorem SameUpToMarks.runPipeline (h : SameUpToMarks e e') (asked : q'.marked = q.marked)
    (conditionless : q.filter.conditions.getD [] = []) (now : Moment) :
    let out := e.runPipeline q.filter q.state q.options now
    let out' := e'.runPipeline q'.filter q'.state q'.options now
    ((Request.Mixes q ∧ out.1 = .error .mixedTimes) ∨
      (Request.Mixes q' ∧ out'.1 = .error .mixedTimes) ∨
      out'.1.map QueryResult.marked = out.1.map QueryResult.marked) ∧
    SameUpToMarks out.2 out'.2 := by
  obtain ⟨filters, states, options⟩ := Request.mk.inj asked
  have conditionless' : q'.filter.conditions.getD [] = [] :=
    (congrArg (fun f : QueryFilter => f.conditions.getD []) filters :).trans conditionless
  obtain ⟨records, same⟩ := h.fetch asked now
  unfold RuleEngine.runPipeline
  generalize e.fetch q.filter now = left at records same ⊢
  generalize e'.fetch q'.filter now = right at records same ⊢
  obtain ⟨fetched, here⟩ := left
  obtain ⟨fetched', there⟩ := right
  rcases map_eq_map_cases records with ⟨why, rfl, rfl⟩ | ⟨es, es', rfl, rfl, equal⟩
  · exact ⟨.inr (.inr rfl), same⟩
  · obtain ⟨rules, clock, graph, lifetime, catalog⟩ := same
    refine ⟨?_, rules, clock, graph, lifetime, catalog⟩
    have follows := QueryRules.answer_marked here.rules.query here.clock here.catalog here.graph
      q.state q.options here.evaluator here.evaluator conditionless es
    have follows' := QueryRules.answer_marked there.rules.query there.clock there.catalog
      there.graph q'.state q'.options there.evaluator here.evaluator conditionless' es'
    rw [rules, clock, catalog, graph, filters, states, options, equal] at follows'
    rcases follows with mixed | same
    · exact .inl mixed
    · refine .inr (follows'.imp ?_ ?_)
      · dsimp only
        rw [rules, clock, graph, options]
        exact id
      · dsimp only
        rw [rules, clock, graph, options]
        exact fun same' => same'.trans same.symm

/-- A query fails over mixed times. -/
def FailsMixed (q : Request) (out : Except QueryFailure QueryResult) : Prop :=
  q.Mixes ∧ out = .error (.reported (.pipeline .mixedTimes q.filter q.options))

/-- Two queries are answered alike up to marks, unless one of them fails over mixed times. -/
def AnsweredAlike (q q' : Request) (out out' : Except QueryFailure QueryResult) : Prop :=
  FailsMixed q out ∨ FailsMixed q' out' ∨ markedAnswer out' = markedAnswer out

theorem SameUpToMarks.queryAnew (h : SameUpToMarks e e') (asked : q'.marked = q.marked)
    (conditionless : q.filter.conditions.getD [] = []) (now : Moment) :
    let out := e.queryAnew q.filter q.state q.options now
    let out' := e'.queryAnew q'.filter q'.state q'.options now
    AnsweredAlike q q' out.1 out'.1 ∧ SameUpToMarks out.2 out'.2 := by
  obtain ⟨filters, -, options⟩ := Request.mk.inj asked
  obtain ⟨answers, same⟩ := h.runPipeline asked conditionless now
  unfold RuleEngine.queryAnew
  generalize e.runPipeline q.filter q.state q.options now = left at answers same ⊢
  generalize e'.runPipeline q'.filter q'.state q'.options now = right at answers same ⊢
  obtain ⟨out, here⟩ := left
  obtain ⟨out', there⟩ := right
  obtain ⟨rules, clock, graph, lifetime, catalog⟩ := same
  refine ⟨?_, ?_⟩
  · rcases answers with ⟨mixes, rfl⟩ | ⟨mixes, rfl⟩ | equal
    · exact .inl ⟨mixes, rfl⟩
    · exact .inr (.inl ⟨mixes, rfl⟩)
    · refine .inr (.inr ?_)
      rcases map_eq_map_cases equal with ⟨why, rfl, rfl⟩ | ⟨r, r', rfl, rfl, results⟩
      · exact congrArg₂ (fun f o => Except.error (QueryFailure.reported (.pipeline why f o)))
          filters options
      · exact congrArg Except.ok results
  · cases out <;> cases out' <;> exact ⟨rules, clock, graph, lifetime, catalog⟩

/-- Whether a lifetime can be told depends neither on the time nor on what is remembered. -/
theorem SameUpToMarks.remember (h : SameUpToMarks e e') (key key' : Fingerprint)
    {r r' : QueryResult} (results : r'.marked = r.marked) :
    markedAnswer (e'.remember key' r').1 = markedAnswer (e.remember key r).1 := by
  have lifetime := h.lifetime
  unfold RuleEngine.remember ResultCache.set ResultCache.expiry
  rw [lifetime]
  cases e.results.ttl with
  | none => exact congrArg Except.ok results
  | some ttl =>
    dsimp only
    cases ttl.scalar with
    | error why => rfl
    | ok t => exact congrArg Except.ok results

theorem blanked_moment (m : Moment) : (Encode.moment m).blanked = .str "" := rfl

theorem blanked_time (m : Option Moment) :
    (Encode.optional Encode.moment (m.map Moment.asUtc)).blanked =
      (Encode.optional Encode.moment m).blanked := by
  cases m with
  | none => rfl
  | some m =>
    rw [Option.map_some, Encode.optional, Encode.optional, blanked_moment, blanked_moment]

theorem blanked_window (window : Option TimeConstraints) :
    (Encode.optional TimeConstraints.encode (window.map TimeConstraints.marked)).blanked =
      (Encode.optional TimeConstraints.encode window).blanked := by
  cases window with
  | none => rfl
  | some window =>
    have starts := blanked_time window.startTime
    have ends := blanked_time window.endTime
    simp only [Encode.optional, TimeConstraints.encode, TimeConstraints.marked, Option.map_some,
      Json.blanked, Json.blankedMembers] at starts ends ⊢
    rw [starts, ends]

/-- Marks are written in texts alone. -/
theorem blanked_filter_marked (filter : QueryFilter) :
    filter.marked.encode.blanked = filter.encode.blanked := by
  simp only [QueryFilter.encode, QueryFilter.marked, Json.blanked, Json.blankedMembers,
    blanked_window]

theorem blanked_event_marked (event : RecentEvent) :
    event.marked.view.dump.blanked = event.view.dump.blanked := by
  have time : (Value.ofOption Value.moment (event.timestamp.map Moment.asUtc)).dump.blanked =
      (Value.ofOption Value.moment event.timestamp).dump.blanked := by
    cases event.timestamp with
    | none => rfl
    | some m => exact (blanked_moment m.asUtc).trans (blanked_moment m).symm
  simp only [RecentEvent.view, RecentEvent.marked, Value.dump, Value.dumpMembers, Json.blanked,
    Json.blankedMembers, time]

theorem blanked_state_marked (state : GameState) :
    state.marked.encode.blanked = state.encode.blanked := by
  simp only [GameState.encode, GameState.view, GameState.marked, Value.dump, Value.dumpMembers,
    Value.dump_ofList, Encode.list, Json.blanked, Json.blankedMembers, Json.blankedItems_eq,
    List.map_map, Function.comp_def, blanked_event_marked]

/-- Requests without conditions that are the same up to marks are written alike, or not at all for
the same reason. -/
theorem obstacle_marked (asked : q'.marked = q.marked)
    (conditionless : q.filter.conditions.getD [] = []) (room : Nat) :
    q'.obstacle room = q.obstacle room := by
  obtain ⟨filters, states, options⟩ := Request.mk.inj asked
  have conditionless' : q'.filter.conditions.getD [] = [] :=
    (congrArg (fun f : QueryFilter => f.conditions.getD []) filters :).trans conditionless
  have shallow := QueryFilter.layers_conditionless conditionless
  have shallow' := QueryFilter.layers_conditionless conditionless'
  have filter : q'.filter.encode.blanked = q.filter.encode.blanked := by
    rw [← blanked_filter_marked, filters, blanked_filter_marked]
  have state : q'.state.encode.blanked = q.state.encode.blanked := by
    rw [← blanked_state_marked, states, blanked_state_marked]
  unfold Request.obstacle
  rw [if_pos shallow, if_pos shallow', Json.obstacle_eq_of_blanked filter,
    Json.obstacle_eq_of_blanked state, options]

theorem SameUpToMarks.sameSources {after after' : RuleEngine} (h : SameUpToMarks e e')
    (h' : SameUpToMarks after after') : e'.sameSources after' = e.sameSources after := by
  have revision : ∀ {b b' : RuleEngine}, SameUpToMarks b b' →
      b'.catalog.revision = b.catalog.revision :=
    fun same => (congrArg EntityCatalog.revision same.catalog :)
  unfold RuleEngine.sameSources
  rw [h.graph, h'.graph, revision h, revision h']

/-- Where nothing is held for them, queries that are looked up are answered alike. -/
theorem SameUpToMarks.queryRemembered (h : SameUpToMarks e e') (asked : q'.marked = q.marked)
    (conditionless : q.filter.conditions.getD [] = []) {key key' : Fingerprint}
    (miss : (e.results.get key e.time).1 = none) (miss' : (e'.results.get key' e'.time).1 = none)
    (now : Moment) :
    AnsweredAlike q q' (e.queryRemembered key q.filter q.state q.options now).1
      (e'.queryRemembered key' q'.filter q'.state q'.options now).1 := by
  have missed : SameUpToMarks { e with results := (e.results.get key e.time).2 }
      { e' with results := (e'.results.get key' e'.time).2 } := by
    refine ⟨h.rules, h.clock, h.graph, ?_, h.catalog⟩
    dsimp only
    rw [ResultCache.ttl_get, ResultCache.ttl_get, h.lifetime]
  unfold RuleEngine.queryRemembered
  generalize e.results.get key e.time = looked at miss missed ⊢
  generalize e'.results.get key' e'.time = looked' at miss' missed ⊢
  obtain ⟨found, results⟩ := looked
  obtain ⟨found', results'⟩ := looked'
  obtain rfl : found = none := miss
  obtain rfl : found' = none := miss'
  obtain ⟨answers, after⟩ := missed.queryAnew asked conditionless now
  have sources := missed.sameSources after
  dsimp only at answers after sources ⊢
  generalize RuleEngine.queryAnew { e with results } q.filter q.state q.options now = left
    at answers after sources ⊢
  generalize RuleEngine.queryAnew { e' with results := results' } q'.filter q'.state q'.options now =
    right at answers after sources ⊢
  obtain ⟨out, here⟩ := left
  obtain ⟨out', there⟩ := right
  rcases answers with ⟨mixes, rfl⟩ | ⟨mixes, rfl⟩ | equal
  · exact .inl ⟨mixes, rfl⟩
  · exact .inr (.inl ⟨mixes, rfl⟩)
  · refine .inr (.inr ?_)
    cases out with
    | error why =>
      cases out' with
      | error why' => exact equal
      | ok r' => cases equal
    | ok r =>
      cases out' with
      | error why' => cases equal
      | ok r' =>
        dsimp only at after sources ⊢
        rw [sources]
        split
        · exact after.remember key key' (Except.ok.inj equal)
        · exact equal

/-- A request that is not held is answered anew, and so is one that is the same up to marks. The
answers are the same up to marks, failures included, unless naive event times stand among others
and dramatic timing is asked for. -/
theorem ask_marked (same : SameUpToMarks e e') (asked : q'.marked = q.marked)
    (conditionless : q.filter.conditions.getD [] = [])
    (new : (e.results.get (e.keyOf q) e.time).1 = none)
    (new' : (e'.results.get (e'.keyOf q') e'.time).1 = none) (now : Moment) :
    AnsweredAlike q q' (e.ask q now).1 (e'.ask q' now).1 := by
  obtain ⟨filters, -, options⟩ := Request.mk.inj asked
  have factors : q'.filter.contextFactors = q.filter.contextFactors :=
    (congrArg QueryFilter.contextFactors filters :)
  have conditions : q'.filter.conditions = q.filter.conditions :=
    (congrArg QueryFilter.conditions filters :)
  have counted : SameUpToMarks e.counted e'.counted :=
    ⟨same.rules, same.clock, same.graph, same.lifetime, same.catalog⟩
  have cacheable : e'.counted.isCacheable q'.filter q'.options =
      e.counted.isCacheable q.filter q.options := by
    unfold isCacheable
    rw [counted.rules, factors, conditions, options]
  have room : e'.rules.room = e.rules.room := congrArg EngineRules.room same.rules
  have written : q'.obstacle e'.rules.room = q.obstacle e.rules.room :=
    room ▸ obstacle_marked asked conditionless e'.rules.room
  rw [ask, ask, query_eq, query_eq, cacheable, fingerprint_eq, fingerprint_eq,
    written]
  split
  · cases q.obstacle e.rules.room with
    | some why => exact .inr (.inr rfl)
    | none => exact counted.queryRemembered asked conditionless new new' now
  · exact (counted.queryAnew asked conditionless now).1

namespace Sample

open QueryRules.Sample (engine entity noon)

theorem dawn_inRange : Moment.Fields.InRange ⟨1969, 12, 31, 6, 0, 0, 0, none⟩ := by decide

/-- A naive time, hours before the clock of the engine. -/
def dawn : Moment := ⟨⟨1969, 12, 31, 6, 0, 0, 0, none⟩, dawn_inRange⟩

/-- An engine with one record that is there from dawn on. -/
def stall : RuleEngine :=
  { engine with
    catalog := .ofList [{ entity "a" .quest 1 with
      timestamp := some dawn, availableFrom := some dawn }] }

/-- The same record with marked times. -/
def markedStall : RuleEngine := { stall with catalog := stall.catalog.marked }

/-- A visit at dawn or later, some time after some events. -/
def visit (events : List Moment) : Request :=
  { filter := {
      contextFactors := some ["dramatic_timing"]
      timeConstraints := some { startTime := some dawn } }
    state := { recentEvents := events.map fun m => { timestamp := some m } }
    options := { sortBy := "found" } }

end Sample

open Sample

open QueryRules.Sample (noon)

theorem ask_marked_stall :
    SameUpToMarks stall markedStall ∧
      (visit [dawn, dawn]).marked.marked = (visit [dawn, dawn]).marked ∧
      AnsweredAlike (visit [dawn, dawn]) (visit [dawn, dawn]).marked
        (stall.ask (visit [dawn, dawn]) noon).1
        (markedStall.ask (visit [dawn, dawn]).marked noon).1 ∧
      ((stall.ask (visit [dawn, dawn]) noon).1.toOption.map (·.total)) = some 1 := by
  have same : SameUpToMarks stall markedStall := ⟨rfl, rfl, rfl, rfl, rfl⟩
  have asked : (visit [dawn, dawn]).marked.marked = (visit [dawn, dawn]).marked := rfl
  exact ⟨same, asked, ask_marked same asked rfl rfl rfl noon, by decide +kernel⟩

/-- Of two events at dawn, one is naive: the query fails, and succeeds when that one is marked. -/
theorem ask_mixedTimes :
    let q := visit [dawn, dawn.asUtc]
    let q' := visit [dawn.asUtc, dawn.asUtc]
    q'.marked = q.marked ∧ q.filter.conditions.getD [] = [] ∧
      (stall.ask q noon).1 = .error (.reported (.pipeline .mixedTimes q.filter q.options)) ∧
      ((stall.ask q' noon).1.toOption.map (·.total)) = some 1 :=
  ⟨rfl, rfl, rfl, by decide +kernel⟩

end RuleEngine

end EntityRules
