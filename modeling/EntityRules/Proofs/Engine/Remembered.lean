import EntityRules.Proofs.Engine.Run
import EntityRules.Proofs.Evaluation.Steady
import EntityRules.Proofs.Json.Canonical
import EntityRules.Proofs.Query.Correctness
import Mathlib.Data.List.Induction
import Mathlib.Data.Set.Function

/-! No remembered result is older than what it was computed from. -/

namespace EntityRules

namespace Request

/-- Requests whose models are written alike, up to the order of the members of objects. -/
structure Same (q q' : Request) : Prop where
  filter : q.filter.encode.arranged = q'.filter.encode.arranged
  state : q.state.encode.arranged = q'.state.encode.arranged
  options : q.options.encode.arranged = q'.options.encode.arranged

/-- The texts of a request that are digested. -/
def texts (q : Request) : List String :=
  [q.filter.encode.canonical, q.state.encode.canonical, q.options.encode.canonical]

/-- A request that looks at the time of day. -/
def UsesClock (q : Request) : Prop := "dramatic_timing" ∈ q.filter.contextFactors.getD []

/-- A request whose conditions call a random function, at any depth. -/
def Draws (q : Request) : Prop :=
  ∃ c ∈ q.filter.conditions.getD [], ∃ common name parameters,
    .function common name parameters ∈ c.nodes ∧ (name = "probability" ∨ name = "dice_roll")

/-- A request whose conditions call a function by its name, at any depth. -/
def Calls (q : Request) (name : String) : Prop :=
  ∃ c ∈ q.filter.conditions.getD [], c.Calls name

end Request

/-- The texts that are digested in some steps. -/
def EngineStep.textsOf (steps : List EngineStep) : Set String :=
  {t | ∃ s ∈ steps, ∃ q now, s.Asks q now ∧ t ∈ q.texts}

theorem EngineStep.textsOf_append {steps rest : List EngineStep} {t : String}
    (h : t ∈ textsOf steps) : t ∈ textsOf (steps ++ rest) := by
  obtain ⟨s, hs, asks⟩ := h
  exact ⟨s, List.mem_append_left rest hs, asks⟩

namespace RuleEngine

variable {e e' : RuleEngine} {q q' : Request} {steps : List EngineStep}

theorem isCacheable_iff :
    e.isCacheable q.filter q.options = true ↔
      (e.rules.cacheEnabled = true ∧ q.options.useCache = true) ∧ ¬ q.UsesClock ∧
        Condition.isDeterministic (q.filter.conditions.getD []) = true := by
  simp [isCacheable, Request.UsesClock, Vocabulary.name, and_assoc]

/-- What looks at the time of day or draws is not remembered. -/
theorem not_isCacheable (h : q.UsesClock ∨ q.Draws) (e : RuleEngine) :
    e.isCacheable q.filter q.options = false := by
  rw [← Bool.not_eq_true, isCacheable_iff]
  rintro ⟨-, timeless, quiet⟩
  rcases h with clock | ⟨c, hc, common, name, parameters, hn, random⟩
  · exact timeless clock
  · have still := List.all_eq_true.mp (List.all_eq_true.mp quiet c hc) _ hn
    replace still : (!BuiltIn.isRandomName name) = true := still
    rcases random with rfl | rfl
    · exact absurd still (by decide)
    · exact absurd still (by decide)

/-- As long as nothing changes that it is computed from, the result of a request that can be
remembered stays the same. Of the functions, only those that it calls matter. -/
theorem compute_congr (memory : e.catalog.InMemory) (memory' : e'.catalog.InMemory)
    (draws : e.evaluator.functions.DrawsByName) (rules : e'.rules = e.rules)
    (functions : ∀ name, q.Calls name →
      Members.get? e'.evaluator.functions name = Members.get? e.evaluator.functions name)
    (same : Unchanged e e') (h : e.isCacheable q.filter q.options = true)
    (now now' : Moment) : e'.compute q now' = e.compute q now := by
  obtain ⟨-, timeless, quiet⟩ := isCacheable_iff.mp h
  rw [compute_eq memory, compute_eq memory', rules, QueryRules.ofKind_congr same.records]
  exact QueryRules.answer_congr same.records same.edges
    (fun c hc name called => functions name ⟨c, hc, called⟩)
    (Condition.isSteady_of_isDeterministic draws quiet) timeless e'.clock _

theorem kept_run (memory : e.catalog.InMemory) (steps : List EngineStep) : Kept e (e.run steps) := by
  induction steps using List.reverseRecOn with
  | nil => exact .refl e
  | append_singleton steps s ih =>
    rw [run_concat]
    exact ih.trans (kept_apply (ih.memory memory) s)

/-- A result that is still current: the pipeline answered a request with it, and no step since then
has changed a record, a node or an edge. -/
def Current (e : RuleEngine) (steps : List EngineStep) (q : Request) (found : QueryResult) : Prop :=
  ∃ before s now between, steps = before ++ s :: between ∧ s.Asks q now ∧
    ((e.run before).ask q now).1 = .ok found ∧ (e.run before).compute q now = .ok found ∧
    ∀ since, since <+: between → Unchanged (e.run before) (e.run (before ++ s :: since))

/-- A step that changes nothing leaves results current. -/
theorem Current.concat {found : QueryResult} {s : EngineStep} (h : Current e steps q found)
    (same : Unchanged (e.run steps) (s.apply (e.run steps))) :
    Current e (steps ++ [s]) q found := by
  obtain ⟨before, asked, now, between, rfl, asks, answer, computed, since⟩ := h
  refine ⟨before, asked, now, between ++ [s], by simp, asks, answer, computed, ?_⟩
  intro mid hm
  rcases List.prefix_concat_iff.mp hm with rfl | hm
  · have last := (since between List.prefix_rfl).trans same
    rw [← run_concat, List.append_assoc] at last
    exact last
  · exact since mid hm

/-- What has just been computed is current. -/
theorem current_of_compute {found : QueryResult} {s : EngineStep} {now : Moment}
    (asks : s.Asks q now) (answer : ((e.run steps).ask q now).1 = .ok found)
    (computed : (e.run steps).compute q now = .ok found)
    (same : Unchanged (e.run steps) (s.apply (e.run steps))) :
    Current e (steps ++ [s]) q found := by
  refine ⟨steps, s, now, [], rfl, asks, answer, computed, ?_⟩
  intro since hs
  rw [List.prefix_nil.mp hs, run_concat]
  exact same

/-- All that is remembered in a run is current. -/
theorem entries_run (empty : e.results.entries = []) (memory : e.catalog.InMemory)
    (steps : List EngineStep) :
    ∀ entry ∈ (e.run steps).results.entries, ∃ q, entry.key = e.keyOf q ∧
      e.isCacheable q.filter q.options = true ∧ Current e steps q entry.value := by
  induction steps using List.reverseRecOn with
  | nil =>
    intro entry he
    rw [run, List.foldl_nil, empty] at he
    cases he
  | append_singleton steps s ih =>
    intro entry he
    rw [run_concat] at he
    have kept := kept_run memory steps
    obtain ⟨same, old | ⟨q, now, asks, key, cacheable, answer, computed⟩⟩ :=
      entries_apply (kept.memory memory) s entry he
    · obtain ⟨q, key, cacheable, current⟩ := ih entry old
      exact ⟨q, key, cacheable, current.concat same⟩
    · refine ⟨q, ?_, ?_, current_of_compute asks answer computed same⟩
      · rw [key, keyOf, keyOf, kept.rules]
      · rw [← cacheable, isCacheable, isCacheable, kept.rules]

/-- The pipeline would come to a current result once more. -/
theorem Current.compute {found : QueryResult} (h : Current e steps q found)
    (memory : e.catalog.InMemory) (draws : e.evaluator.functions.DrawsByName)
    (cacheable : e.isCacheable q.filter q.options = true) (now' : Moment) :
    (e.run steps).compute q now' = .ok found := by
  obtain ⟨before, s, now, between, rfl, -, -, computed, since⟩ := h
  have kept := kept_run memory before
  have later := kept_run (kept.memory memory) (s :: between)
  rw [← run_append] at later
  rw [← computed]
  apply compute_congr (kept.memory memory) (later.memory (kept.memory memory))
    (kept.functions.symm ▸ draws) later.rules (fun name _ => by rw [later.functions])
    (since between List.prefix_rfl)
  rw [← cacheable, isCacheable, isCacheable, kept.rules]

theorem Current.mem_textsOf {found : QueryResult} (h : Current e steps q found) {t : String}
    (ht : t ∈ q.texts) : t ∈ EngineStep.textsOf steps := by
  obtain ⟨before, s, now, between, rfl, asks, -⟩ := h
  exact ⟨s, by simp, q, now, asks, ht⟩

/-- Requests with one key are the same, unless two of their texts have one digest. -/
theorem same_of_keyOf {texts : Set String} (apart : Set.InjOn e.rules.digest texts)
    (h : ∀ t ∈ q.texts, t ∈ texts) (h' : ∀ t ∈ q'.texts, t ∈ texts) (key : e.keyOf q = e.keyOf q') :
    q.Same q' := by
  simp only [Request.texts, List.forall_mem_cons] at h h'
  obtain ⟨filter, state, -, options⟩ := Fingerprint.mk.inj key
  exact ⟨Json.canonical_eq_iff.mp (apart h.1 h'.1 filter),
    Json.canonical_eq_iff.mp (apart h.2.1 h'.2.1 state),
    Json.canonical_eq_iff.mp (apart h.2.2.1 h'.2.2.1 options)⟩

end RuleEngine

namespace RuleEngine.Sample

/-- The engine of the market, with digests that tell all texts apart. -/
def shop : RuleEngine :=
  { QueryRules.Sample.engine with rules := { QueryRules.Sample.engine.rules with digest := id } }

def request : Request :=
  { filter := QueryRules.Sample.filter, state := QueryRules.Sample.state
    options := { includeRelated := true, sortBy := "found" } }

/-- The request is answered, the graph is validated, and time passes. -/
def morning : List EngineStep :=
  [.query request QueryRules.Sample.noon, .graph (.validate QueryRules.Sample.noon), .advance 60]

end RuleEngine.Sample

end EntityRules
