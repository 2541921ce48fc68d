import EntityRules.Proofs.Cache
import EntityRules.Proofs.Json.Printed
import EntityRules.Proofs.Query.Inputs

/-! Runs of an engine whose records are kept in memory, and what a query leaves of it. -/

namespace EntityRules

/-- What a query asks for. -/
structure Request where
  filter : QueryFilter
  state : GameState
  options : QueryOptions

/-- What comes first of what keeps a request from being written, with some levels inside each
other. -/
def Request.obstacle (q : Request) (room : Nat) : Option Json.PrintTrouble :=
  if q.filter.layers ≤ Json.mostLayers then
    (q.filter.encode.obstacle room).or
      ((q.state.encode.obstacle room).or (q.options.encode.obstacle room))
  else some .layered

/-- A request whose parts can all be written, with some levels inside each other. -/
structure Request.IsWritable (q : Request) (room : Nat) : Prop where
  shallow : q.filter.layers ≤ Json.mostLayers
  filter : Json.Writable room q.filter.encode
  state : Json.Writable room q.state.encode
  options : Json.Writable room q.options.encode

theorem Request.isWritable_iff {q : Request} {room : Nat} :
    q.IsWritable room ↔ q.filter.layers ≤ Json.mostLayers ∧ Json.Writable room q.filter.encode ∧
      Json.Writable room q.state.encode ∧ Json.Writable room q.options.encode :=
  ⟨fun h => ⟨h.shallow, h.filter, h.state, h.options⟩, fun ⟨a, b, c, d⟩ => ⟨a, b, c, d⟩⟩

theorem Request.obstacle_eq_none_iff {q : Request} {room : Nat} :
    q.obstacle room = none ↔ q.IsWritable room := by
  rw [isWritable_iff, obstacle]
  split
  · next shallow =>
    simp only [Option.or_eq_none_iff, Json.obstacle_eq_none_iff]
    exact (and_iff_right shallow).symm
  · next deep => exact iff_of_false nofun fun h => deep h.1

instance (q : Request) (room : Nat) : Decidable (q.IsWritable room) :=
  decidable_of_iff _ Request.isWritable_iff.symm

/-- What is done with an engine that keeps its functions. -/
inductive EngineStep where
  | addRecord (record : EntityRecord Float)
  | removeRecord (id : String)
  | graph (s : GraphStep Float)
  | clearCaches
  /-- Lets time pass for remembered results. -/
  | advance (seconds : Float)
  /-- Sets the time of day. -/
  | tick (clock : Int)
  | query (q : Request) (now : Moment)
  /-- A query that is given by documents. -/
  | queryDocuments (filter state options : Json) (now : Moment)

/-- A step asks what its models ask, or what its documents are read as. -/
inductive EngineStep.Asks : EngineStep → Request → Moment → Prop
  | query (q : Request) (now : Moment) : Asks (.query q now) q now
  | documents {filter state options : Json} {q : Request} {now : Moment}
      (hs : GameState.decode state = .ok q.state)
      (hr : RuleEngine.readRequest filter options = .ok (q.filter, q.options)) :
      Asks (.queryDocuments filter state options now) q now

namespace RuleEngine

def ask (e : RuleEngine) (q : Request) (now : Moment) :
    Except QueryFailure QueryResult × RuleEngine :=
  e.query q.filter q.state q.options now

theorem ask_mk (e : RuleEngine) (filter : QueryFilter) (state : GameState) (options : QueryOptions)
    (now : Moment) : e.ask ⟨filter, state, options⟩ now = e.query filter state options now := rfl

/-- What the pipeline makes of a request. -/
def compute (e : RuleEngine) (q : Request) (now : Moment) : Except PipelineTrouble QueryResult :=
  (e.runPipeline q.filter q.state q.options now).1

/-- The key under which the result of a request is remembered. -/
def keyOf (e : RuleEngine) (q : Request) : Fingerprint :=
  { filter := e.rules.digest q.filter.encode.canonical
    state := e.rules.digest q.state.encode.canonical
    kinds := Fingerprint.kindNames q.filter
    options := e.rules.digest q.options.encode.canonical }

/-- The fingerprint of a request under the rules of an engine. -/
def fingerprint (e : RuleEngine) (q : Request) : Except Json.PrintTrouble Fingerprint :=
  Fingerprint.build e.rules.digest e.rules.room q.filter q.state q.options

end RuleEngine

/-- The engine after a step. -/
def EngineStep.apply (e : RuleEngine) : EngineStep → RuleEngine
  | addRecord record => e.addRecord record
  | removeRecord id => (e.removeRecord id).2
  | graph s => e.withGraph (s.apply e.graph)
  | clearCaches => e.clearCaches
  | advance seconds => e.advance seconds
  | tick clock => { e with clock }
  | query q now => (e.ask q now).2
  | queryDocuments filter state options now => (e.queryDocuments filter state options now).2

theorem EngineStep.Asks.apply {s : EngineStep} {q : Request} {now : Moment} (h : s.Asks q now)
    (e : RuleEngine) : s.apply e = (e.ask q now).2 := by
  cases h with
  | query => rfl
  | documents hs hr =>
    unfold EngineStep.apply RuleEngine.queryDocuments
    dsimp only
    rw [hs, hr]
    rfl

namespace RuleEngine

/-- The engine after some steps. -/
def run (e : RuleEngine) (steps : List EngineStep) : RuleEngine := steps.foldl EngineStep.apply e

variable {e e' : RuleEngine} {q : Request}

theorem run_append (e : RuleEngine) (steps rest : List EngineStep) :
    e.run (steps ++ rest) = (e.run steps).run rest :=
  List.foldl_append

theorem run_concat (e : RuleEngine) (steps : List EngineStep) (s : EngineStep) :
    e.run (steps ++ [s]) = s.apply (e.run steps) :=
  run_append e steps [s]

/-- No record has changed, and no node or edge but for the marks of validations. -/
structure Unchanged (e e' : RuleEngine) : Prop where
  records : e'.catalog.records = e.catalog.records
  edges : RelationshipGraph.SameEdges e.graph e'.graph

theorem Unchanged.refl (e : RuleEngine) : Unchanged e e := ⟨rfl, .refl e.graph⟩

theorem Unchanged.trans {e'' : RuleEngine} (h : Unchanged e e') (h' : Unchanged e' e'') :
    Unchanged e e'' :=
  ⟨h'.records.trans h.records, h.edges.trans h'.edges⟩

/-- What all steps keep: the rules, the functions, and that records are kept in memory. -/
structure Kept (e e' : RuleEngine) : Prop where
  rules : e'.rules = e.rules
  functions : e'.evaluator.functions = e.evaluator.functions
  memory : e.catalog.InMemory → e'.catalog.InMemory

theorem Kept.refl (e : RuleEngine) : Kept e e := ⟨rfl, rfl, id⟩

theorem Kept.trans {e'' : RuleEngine} (h : Kept e e') (h' : Kept e' e'') : Kept e e'' :=
  ⟨h'.rules.trans h.rules, h'.functions.trans h.functions, fun m => h'.memory (h.memory m)⟩

/-- What a query works on: everything but counts, remembered results and the random source. -/
structure SameInputs (e e' : RuleEngine) : Prop where
  rules : e'.rules = e.rules
  functions : e'.evaluator.functions = e.evaluator.functions
  catalog : e'.catalog = e.catalog
  graph : e'.graph = e.graph

theorem SameInputs.unchanged (h : SameInputs e e') : Unchanged e e' :=
  ⟨by rw [h.catalog], h.graph ▸ .refl e'.graph⟩

theorem SameInputs.sameSources (h : SameInputs e e') : e.sameSources e' = true := by
  simp [RuleEngine.sameSources, h.graph, h.catalog]

theorem SameInputs.kept (h : SameInputs e e') : Kept e e' :=
  ⟨h.rules, h.functions, fun m => h.catalog ▸ m⟩

theorem SameInputs.trans {e'' : RuleEngine} (h : SameInputs e e') (h' : SameInputs e' e'') :
    SameInputs e e'' :=
  ⟨h'.rules.trans h.rules, h'.functions.trans h.functions, h'.catalog.trans h.catalog,
    h'.graph.trans h.graph⟩

theorem runPipeline_inMemory (h : e.catalog.InMemory) (q : Request) (now : Moment) :
    e.runPipeline q.filter q.state q.options now =
      let answered := e.rules.query.answer e.clock e.catalog e.graph q.filter q.state q.options
        (QueryRules.distinct [] ((QueryRules.requests q.filter).flatMap e.catalog.ofKind))
        e.evaluator
      (answered.1, { e with evaluator := answered.2 }) := by
  rw [runPipeline, fetch_inMemory h]

theorem compute_eq (h : e.catalog.InMemory) (q : Request) (now : Moment) :
    e.compute q now =
      (e.rules.query.answer e.clock e.catalog e.graph q.filter q.state q.options
        (QueryRules.distinct [] ((QueryRules.requests q.filter).flatMap e.catalog.ofKind))
        e.evaluator).1 := by
  rw [compute, runPipeline_inMemory h]

theorem cacheHit_compute (h : e.catalog.InMemory) {q : Request} {now : Moment} {r : QueryResult}
    (hr : e.compute q now = .ok r) : r.cacheHit = false := by
  rw [compute_eq h] at hr
  exact QueryRules.cacheHit_answer hr

/-- Answering anew leaves what queries work on and what is remembered; an answer is that of the
pipeline. -/
theorem queryAnew_spec (h : e.catalog.InMemory) (q : Request) (now : Moment) :
    SameInputs e (e.queryAnew q.filter q.state q.options now).2 ∧
      (e.queryAnew q.filter q.state q.options now).2.results = e.results ∧
      ∀ r, (e.queryAnew q.filter q.state q.options now).1 = .ok r ↔ e.compute q now = .ok r := by
  have functions := @QueryRules.functions_answer e.rules.query e.clock e.catalog e.graph q.filter
    q.state q.options e.evaluator
    (QueryRules.distinct [] ((QueryRules.requests q.filter).flatMap e.catalog.ofKind))
  rw [compute_eq h, queryAnew, runPipeline_inMemory h]
  dsimp only
  generalize QueryRules.answer _ _ _ _ _ _ _ _ _ = answered at functions ⊢
  obtain ⟨answer, ev⟩ := answered
  cases answer with
  | error why => exact ⟨⟨rfl, functions, rfl, rfl⟩, rfl, by simp⟩
  | ok result => exact ⟨⟨rfl, functions, rfl, rfl⟩, rfl, by simp⟩

/-- What a query under a key may lead to: it is answered with what is held under the key or by the
pipeline, and an answer of the pipeline may be held from then on. -/
structure Answered (e : RuleEngine) (key : Fingerprint) (q : Request) (now : Moment)
    (out : Except QueryFailure QueryResult × RuleEngine) : Prop where
  inputs : SameInputs e out.2
  answer : ∀ r, out.1 = .ok r →
    (∃ entry ∈ e.results.entries, entry.key = key ∧ r = { entry.value with cacheHit := true }) ∨
      e.compute q now = .ok r
  entries : ∀ entry ∈ out.2.results.entries, entry ∈ e.results.entries ∨
    entry.key = key ∧ out.1 = .ok entry.value ∧ e.compute q now = .ok entry.value

variable {key : Fingerprint} {now : Moment}

/-- Counting a query and looking a key up do not matter. -/
theorem Answered.of_before {before : RuleEngine}
    {out : Except QueryFailure QueryResult × RuleEngine} (h : Answered before key q now out)
    (memory : e.catalog.InMemory) (inputs : SameInputs e before)
    (same : before.evaluator = e.evaluator ∧ before.clock = e.clock)
    (held : ∀ entry ∈ before.results.entries, entry ∈ e.results.entries) :
    Answered e key q now out := by
  have computed : before.compute q now = e.compute q now := by
    rw [compute_eq memory, compute_eq (inputs.kept.memory memory), inputs.rules, inputs.catalog,
      inputs.graph, same.1, same.2]
  refine ⟨inputs.trans h.inputs, ?_, ?_⟩
  · intro r hr
    rcases h.answer r hr with ⟨entry, he, hk⟩ | new
    · exact .inl ⟨entry, held entry he, hk⟩
    · exact .inr (computed ▸ new)
  · intro entry he
    rcases h.entries entry he with old | ⟨hk, hr, new⟩
    · exact .inl (held entry old)
    · exact .inr ⟨hk, hr, computed ▸ new⟩

/-- Handing out an answer of the pipeline and remembering it, if it can be told for how long. -/
theorem answered_remember {after : RuleEngine} {result : QueryResult} (inputs : SameInputs e after)
    (held : after.results = e.results) (new : e.compute q now = .ok result) :
    Answered e key q now (after.remember key result) := by
  unfold remember
  split
  · refine ⟨inputs, ?_, fun entry he => .inl (held ▸ he)⟩
    rintro r hr
    cases hr
  · next results stored =>
    refine ⟨inputs.trans ⟨rfl, rfl, rfl, rfl⟩, fun r hr => .inr (Except.ok.inj hr ▸ new), ?_⟩
    intro entry he
    rcases ResultCache.mem_entries_set stored he with old | ⟨hk, hv⟩
    · exact .inl (held ▸ old)
    · exact .inr ⟨hk, congrArg Except.ok hv.symm, hv ▸ new⟩

/-- What is not held is answered by the pipeline. -/
theorem answered_anew (memory : e.catalog.InMemory) :
    Answered e key q now
      (match e.queryAnew q.filter q.state q.options now with
      | (.error why, after) => (.error why, after)
      | (.ok result, after) =>
        if e.sameSources after then after.remember key result else (.ok result, after)) := by
  obtain ⟨inputs, held, answered⟩ := queryAnew_spec memory q now
  split
  · next why after failed =>
    rw [failed] at inputs held
    refine ⟨inputs, ?_, fun entry he => .inl (held ▸ he)⟩
    rintro r hr
    cases hr
  · next result after computed =>
    rw [computed] at inputs held answered
    have new := (answered result).mp rfl
    rw [if_pos inputs.sameSources]
    exact answered_remember inputs held new

theorem answered_queryRemembered (memory : e.catalog.InMemory) :
    Answered e key q now (e.queryRemembered key q.filter q.state q.options now) := by
  have looked : ∀ entry ∈ (e.results.get key e.time).2.entries, entry ∈ e.results.entries :=
    fun _ => ResultCache.mem_entries_get
  unfold queryRemembered
  split
  · next found results hit =>
    have held : (e.results.get key e.time).1 = some found := by rw [hit]
    obtain ⟨entry, he, hk, rfl⟩ := ResultCache.mem_of_get held
    rw [hit] at looked
    refine ⟨⟨rfl, rfl, rfl, rfl⟩, ?_, fun entry he => .inl (looked entry he)⟩
    rintro r hr
    cases hr
    exact .inl ⟨entry, he, hk, rfl⟩
  · next results miss =>
    rw [miss] at looked
    have new : Answered { e with results } key q now _ := answered_anew memory
    exact new.of_before memory ⟨rfl, rfl, rfl, rfl⟩ ⟨rfl, rfl⟩ looked

/-- The engine with one more query counted. -/
def counted (e : RuleEngine) : RuleEngine := { e with queries := e.queries + 1 }

theorem query_eq (e : RuleEngine) (filter : QueryFilter) (state : GameState)
    (options : QueryOptions) (now : Moment) :
    e.query filter state options now =
      if e.counted.isCacheable filter options then
        match e.fingerprint ⟨filter, state, options⟩ with
        | .error why => (.error (.unwritable why), e.counted)
        | .ok key => e.counted.queryRemembered key filter state options now
      else e.counted.queryAnew filter state options now := rfl

/-- The fingerprint of a request is its key, unless a part of it cannot be written. -/
theorem fingerprint_eq (e : RuleEngine) (q : Request) : e.fingerprint q =
    match q.obstacle e.rules.room with
    | some why => .error why
    | none => .ok (e.keyOf q) := by
  unfold fingerprint Fingerprint.build Fingerprint.filterText Request.obstacle Json.print
  split
  · cases q.filter.encode.obstacle e.rules.room with
    | some why => rfl
    | none =>
      cases q.state.encode.obstacle e.rules.room with
      | some why => rfl
      | none => cases q.options.encode.obstacle e.rules.room <;> rfl
  · rfl

theorem fingerprint_eq_ok_iff {key : Fingerprint} :
    e.fingerprint q = .ok key ↔ q.IsWritable e.rules.room ∧ e.keyOf q = key := by
  rw [fingerprint_eq, ← Request.obstacle_eq_none_iff]
  cases q.obstacle e.rules.room <;> simp

theorem fingerprint_eq_error_iff :
    (∃ why, e.fingerprint q = .error why) ↔ ¬ q.IsWritable e.rules.room := by
  rw [fingerprint_eq, ← Request.obstacle_eq_none_iff]
  cases q.obstacle e.rules.room <;> simp

/-- A request that cannot be remembered is answered anew; another one is looked up under its key,
unless a part of it cannot be written. -/
theorem ask_cases (e : RuleEngine) (q : Request) (now : Moment) :
    (e.isCacheable q.filter q.options = false ∧
      e.ask q now = e.counted.queryAnew q.filter q.state q.options now) ∨
    (e.isCacheable q.filter q.options = true ∧ q.IsWritable e.rules.room ∧
      e.ask q now = e.counted.queryRemembered (e.keyOf q) q.filter q.state q.options now) ∨
    (e.isCacheable q.filter q.options = true ∧ ¬ q.IsWritable e.rules.room ∧
      ∃ why, e.fingerprint q = .error why ∧ e.ask q now = (.error (.unwritable why), e.counted)) := by
  have counted : e.counted.isCacheable q.filter q.options = e.isCacheable q.filter q.options := rfl
  rw [ask, query_eq, counted]
  cases e.isCacheable q.filter q.options with
  | false => exact .inl ⟨rfl, rfl⟩
  | true =>
    rw [if_pos rfl]
    cases made : e.fingerprint q with
    | ok key =>
      obtain ⟨written, rfl⟩ := fingerprint_eq_ok_iff.mp made
      exact .inr (.inl ⟨rfl, written, rfl⟩)
    | error why =>
      exact .inr (.inr ⟨rfl, fingerprint_eq_error_iff.mp ⟨why, made⟩, why, rfl, rfl⟩)

theorem ask_of_isWritable (cacheable : e.isCacheable q.filter q.options = true)
    (written : q.IsWritable e.rules.room) (now : Moment) :
    e.ask q now = e.counted.queryRemembered (e.keyOf q) q.filter q.state q.options now := by
  rcases e.ask_cases q now with ⟨skips, -⟩ | ⟨-, -, asked⟩ | ⟨-, unwritten, -⟩
  · rw [cacheable] at skips
    cases skips
  · exact asked
  · exact absurd written unwritten

theorem compute_counted (h : e.catalog.InMemory) (q : Request) (now : Moment) :
    e.counted.compute q now = e.compute q now := by
  rw [compute_eq h, @compute_eq e.counted h]
  rfl

/-- The result of a query that cannot be remembered is new, and nothing is remembered. -/
theorem ask_of_not_isCacheable (h : e.catalog.InMemory)
    (hc : e.isCacheable q.filter q.options = false) (now : Moment) :
    (e.ask q now).2.results = e.results ∧
      ∀ r, (e.ask q now).1 = .ok r → e.compute q now = .ok r := by
  have new := @queryAnew_spec e.counted h q now
  rw [compute_counted h] at new
  rcases e.ask_cases q now with ⟨-, asked⟩ | ⟨cacheable, -⟩ | ⟨cacheable, -⟩
  · rw [asked]
    exact ⟨new.2.1, fun r => (new.2.2 r).mp⟩
  · rw [hc] at cacheable
    cases cacheable
  · rw [hc] at cacheable
    cases cacheable

theorem answered_ask (h : e.catalog.InMemory) (q : Request) (now : Moment) :
    Answered e (e.keyOf q) q now (e.ask q now) := by
  have counted : SameInputs e e.counted := ⟨rfl, rfl, rfl, rfl⟩
  rcases e.ask_cases q now with ⟨skips, asked⟩ | ⟨-, -, asked⟩ | ⟨-, -, why, -, asked⟩
  · obtain ⟨held, new⟩ := ask_of_not_isCacheable h skips now
    refine ⟨?_, fun r hr => .inr (new r hr), fun entry he => .inl (held ▸ he)⟩
    rw [asked]
    exact counted.trans (@queryAnew_spec e.counted h q now).1
  · rw [asked]
    have remembered : Answered e.counted (e.keyOf q) q now _ := answered_queryRemembered h
    exact remembered.of_before h counted ⟨rfl, rfl⟩ fun _ he => he
  · rw [asked]
    refine ⟨counted, ?_, fun entry he => .inl he⟩
    rintro r hr
    cases hr

/-- What is remembered after a query was remembered before, or is the answer that the pipeline gave
to a query that can be remembered. -/
theorem entries_ask (h : e.catalog.InMemory) (q : Request) (now : Moment) :
    ∀ entry ∈ (e.ask q now).2.results.entries, entry ∈ e.results.entries ∨
      entry.key = e.keyOf q ∧ e.isCacheable q.filter q.options = true ∧
        (e.ask q now).1 = .ok entry.value ∧ e.compute q now = .ok entry.value := by
  intro entry he
  cases hc : e.isCacheable q.filter q.options with
  | false => exact .inl ((ask_of_not_isCacheable h hc now).1 ▸ he)
  | true =>
    rcases (answered_ask h q now).entries entry he with old | ⟨hk, answer, new⟩
    · exact .inl old
    · exact .inr ⟨hk, rfl, answer, new⟩

/-- What is held under the key of a query answers it. -/
theorem ask_of_held {found : QueryResult} (cacheable : e.isCacheable q.filter q.options = true)
    (written : q.IsWritable e.rules.room)
    (held : (e.results.get (e.keyOf q) e.time).1 = some found) (now : Moment) :
    (e.ask q now).1 = .ok { found with cacheHit := true } := by
  rw [ask_of_isWritable cacheable written, queryRemembered]
  split
  · next other results hit =>
    have same : (e.results.get (e.keyOf q) e.time).1 = some other := by
      exact congrArg Prod.fst hit
    rw [Option.some.inj (held.symm.trans same)]
  · next results miss =>
    have none : (e.results.get (e.keyOf q) e.time).1 = none := congrArg Prod.fst miss
    rw [none] at held
    cases held

/-- A cache with room that keeps its entries for good remembers what was computed. -/
theorem held_of_ask (memory : e.catalog.InMemory)
    (cacheable : e.isCacheable q.filter q.options = true)
    (written : q.IsWritable e.rules.room) (room : 0 < e.results.room)
    (forever : e.results.ttl = none) (miss : (e.results.get (e.keyOf q) e.time).1 = none)
    {found : QueryResult} {now : Moment} (computed : e.compute q now = .ok found) (later : Float) :
    ((e.ask q now).2.results.get (e.keyOf q) later).1 = some found := by
  rw [ask_of_isWritable cacheable written, queryRemembered]
  split
  · next other results hit =>
    have same : (e.results.get (e.keyOf q) e.time).1 = some other := congrArg Prod.fst hit
    rw [miss] at same
    cases same
  · next results looked =>
    have same : results = (e.results.get (e.keyOf q) e.time).2 := (congrArg Prod.snd looked).symm
    have room' : 0 < results.room := by rwa [same, ResultCache.room_get]
    have forever' : results.ttl = none := by rw [same, ResultCache.ttl_get, forever]
    obtain ⟨inputs, held, answered⟩ :=
      @queryAnew_spec { e.counted with results } memory q now
    have new : ({ e.counted with results } : RuleEngine).compute q now = .ok found := by
      rw [← computed, compute_eq memory,
        @compute_eq { e.counted with results } memory]
      rfl
    have answer := (answered found).mpr new
    dsimp only
    split
    · next why after failed =>
      rw [failed] at answer
      cases answer
    · next result after done =>
      rw [done] at inputs held answer
      cases answer
      replace held : after.results = results := held
      rw [if_pos inputs.sameSources, remember, held, ResultCache.set_of_forever forever']
      exact ResultCache.get_store room' found later

/-- An engine that takes over a graph of the same revision takes over nothing else. -/
theorem withGraph_of_revision {g : RelationshipGraph Float} (h : g.revision = e.graph.revision) :
    e.withGraph g = { e with graph := g } := by
  rw [withGraph, if_pos h]

/-- A new revision makes the engine forget its results. -/
theorem entries_withGraph {g : RelationshipGraph Float} (h : g.revision ≠ e.graph.revision) :
    (e.withGraph g).results.entries = [] := by
  rw [withGraph, if_neg h]
  rfl

theorem entries_addRecord (e : RuleEngine) (record : EntityRecord Float) :
    (e.addRecord record).results.entries = [] := by
  have told : (e.catalog.add record).revision ≠ e.catalog.revision := Nat.succ_ne_self _
  rw [addRecord, withCatalog, if_neg told]
  rfl

/-- Removing a record leaves the engine as it is, or makes it forget its results. -/
theorem removeRecord_cases (e : RuleEngine) (id : String) :
    (e.removeRecord id).2 = e ∨ (e.removeRecord id).2.results.entries = [] := by
  have taken : (e.removeRecord id).2 = e.withCatalog (e.catalog.remove id).2 := rfl
  rw [taken, withCatalog]
  rcases e.catalog.remove_cases id with kept | told
  · rw [kept, if_pos rfl]
    exact .inl rfl
  · rw [if_neg (by rw [told]; exact Nat.succ_ne_self _)]
    exact .inr rfl

theorem entries_clearCaches (e : RuleEngine) : e.clearCaches.results.entries = [] :=
  @entries_withGraph e.forgetResults _ (Nat.succ_ne_self _)

theorem kept_withGraph (e : RuleEngine) (g : RelationshipGraph Float) : Kept e (e.withGraph g) := by
  unfold withGraph
  split
  · exact ⟨rfl, rfl, id⟩
  · exact ⟨rfl, rfl, id⟩

theorem kept_withCatalog (e : RuleEngine) {c : EntityCatalog}
    (memory : e.catalog.InMemory → c.InMemory) : Kept e (e.withCatalog c) := by
  unfold withCatalog
  split
  · exact ⟨rfl, rfl, memory⟩
  · exact ⟨rfl, rfl, memory⟩

/-- A query by documents is a query by what they are read as, or leaves all but counts. -/
theorem queryDocuments_cases (e : RuleEngine) (filter state options : Json) (now : Moment) :
    (∃ q, EngineStep.Asks (.queryDocuments filter state options now) q now) ∨
      SameInputs e (e.queryDocuments filter state options now).2 ∧
        (e.queryDocuments filter state options now).2.results = e.results := by
  cases hs : GameState.decode state with
  | refused why =>
    right
    unfold queryDocuments
    rw [hs]
    exact ⟨⟨rfl, rfl, rfl, rfl⟩, rfl⟩
  | ok s =>
    cases hr : readRequest filter options with
    | refused why =>
      right
      unfold queryDocuments
      rw [hs, hr]
      exact ⟨⟨rfl, rfl, rfl, rfl⟩, rfl⟩
    | ok request => exact .inl ⟨⟨request.1, s, request.2⟩, .documents hs hr⟩

theorem kept_apply (h : e.catalog.InMemory) (s : EngineStep) : Kept e (s.apply e) := by
  cases s with
  | addRecord record => exact kept_withCatalog e fun m => m.add record
  | removeRecord id => exact kept_withCatalog e fun m => m.remove id
  | graph s => exact kept_withGraph e _
  | clearCaches => exact (⟨rfl, rfl, id⟩ : Kept e e.forgetResults).trans (kept_withGraph _ _)
  | advance seconds => exact ⟨rfl, rfl, id⟩
  | tick clock => exact ⟨rfl, rfl, id⟩
  | query q now => exact (answered_ask h q now).inputs.kept
  | queryDocuments filter state options now =>
    rcases e.queryDocuments_cases filter state options now with ⟨q, asks⟩ | ⟨same, -⟩
    · rw [asks.apply e]
      exact (answered_ask h q now).inputs.kept
    · exact same.kept

/-- What is remembered after a step was remembered before or is an answer of the pipeline to this
step. If anything is remembered, the step has changed no record, node or edge. -/
theorem entries_apply (h : e.catalog.InMemory) (s : EngineStep) :
    ∀ entry ∈ (s.apply e).results.entries, Unchanged e (s.apply e) ∧
      (entry ∈ e.results.entries ∨ ∃ q now, s.Asks q now ∧ entry.key = e.keyOf q ∧
        e.isCacheable q.filter q.options = true ∧ (e.ask q now).1 = .ok entry.value ∧
        e.compute q now = .ok entry.value) := by
  intro entry he
  have asked : ∀ q now, s.Asks q now → Unchanged e (s.apply e) ∧
      (entry ∈ e.results.entries ∨ ∃ q now, s.Asks q now ∧ entry.key = e.keyOf q ∧
        e.isCacheable q.filter q.options = true ∧ (e.ask q now).1 = .ok entry.value ∧
        e.compute q now = .ok entry.value) := by
    intro q now asks
    rw [asks.apply e] at he ⊢
    refine ⟨(answered_ask h q now).inputs.unchanged, ?_⟩
    rcases entries_ask h q now entry he with old | ⟨key, cacheable, answer, new⟩
    · exact .inl old
    · exact .inr ⟨q, now, asks, key, cacheable, answer, new⟩
  cases s with
  | addRecord record =>
    rw [EngineStep.apply, entries_addRecord] at he
    cases he
  | removeRecord id =>
    rw [EngineStep.apply] at he ⊢
    rcases e.removeRecord_cases id with same | none
    · rw [same] at he ⊢
      exact ⟨.refl e, .inl he⟩
    · rw [none] at he
      cases he
  | graph s =>
    rw [EngineStep.apply] at he ⊢
    by_cases same : (s.apply e.graph).revision = e.graph.revision
    · rw [withGraph_of_revision same] at he ⊢
      exact ⟨⟨rfl, RelationshipGraph.sameEdges_of_revision same⟩, .inl he⟩
    · rw [entries_withGraph same] at he
      cases he
  | clearCaches =>
    rw [EngineStep.apply, entries_clearCaches] at he
    cases he
  | advance seconds => exact ⟨⟨rfl, .refl _⟩, .inl he⟩
  | tick clock => exact ⟨⟨rfl, .refl _⟩, .inl he⟩
  | query q now => exact asked q now (.query q now)
  | queryDocuments filter state options now =>
    rcases e.queryDocuments_cases filter state options now with ⟨q, asks⟩ | ⟨same, held⟩
    · exact asked q now asks
    · exact ⟨same.unchanged, .inl (held ▸ he)⟩

end RuleEngine

end EntityRules
