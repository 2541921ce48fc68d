import EntityRules.Proofs.Engine.Remembered

/-! Functions that are registered while an engine is in use. -/

namespace EntityRules

/-- What is done with an engine, the registration of functions included. -/
inductive EngineUse where
  | step (s : EngineStep)
  | register (name : String) (body : FunctionBody) (replace : Bool)

namespace RuleEngine

/-- Gives a function a name. An engine leaves a name that is taken as it is, unless it is to be
given again. -/
def register (e : RuleEngine) (name : String) (body : FunctionBody) (replace : Bool) : RuleEngine :=
  match e.evaluator.register name body replace with
  | .error _ => e
  | .ok evaluator => { e with evaluator }

end RuleEngine

namespace EngineUse

/-- The engine after a use. -/
def apply (e : RuleEngine) : EngineUse → RuleEngine
  | step s => s.apply e
  | register name body replace => e.register name body replace

/-- A use that registers no function that draws. -/
def IsPure (u : EngineUse) : Prop :=
  ∀ name body replace, u = .register name body replace → ConditionFunction.IsSteady ⟨body, false⟩

theorem isPure_step (s : EngineStep) : IsPure (.step s) := nofun

/-- The texts that are digested in some uses. -/
def textsOf (uses : List EngineUse) : Set String :=
  {t | ∃ s, .step s ∈ uses ∧ ∃ q now, s.Asks q now ∧ t ∈ q.texts}

theorem textsOf_append {uses rest : List EngineUse} {t : String} (h : t ∈ textsOf uses) :
    t ∈ textsOf (uses ++ rest) := by
  obtain ⟨s, hs, asks⟩ := h
  exact ⟨s, List.mem_append_left rest hs, asks⟩

end EngineUse

namespace RuleEngine

/-- The engine after some uses. -/
def after (e : RuleEngine) (uses : List EngineUse) : RuleEngine := uses.foldl EngineUse.apply e

variable {e e' : RuleEngine} {q q' : Request} {uses : List EngineUse} {u : EngineUse}

theorem after_append (e : RuleEngine) (uses rest : List EngineUse) :
    e.after (uses ++ rest) = (e.after uses).after rest :=
  List.foldl_append

theorem after_concat (e : RuleEngine) (uses : List EngineUse) (u : EngineUse) :
    e.after (uses ++ [u]) = u.apply (e.after uses) :=
  after_append e uses [u]

/-- A registration changes the functions at most. -/
theorem register_cases (e : RuleEngine) (name : String) (body : FunctionBody) (replace : Bool) :
    e.register name body replace = e ∨
      e.register name body replace =
        { e with evaluator := { e.evaluator with
            functions := Members.put e.evaluator.functions name ⟨body, false⟩ } } := by
  unfold register Evaluator.register
  cases (Members.has e.evaluator.functions name && !replace) with
  | true => exact .inl rfl
  | false => exact .inr rfl

/-- Engines that work on the same still do with one more function. -/
theorem SameInputs.register (h : SameInputs e e') (name : String) (body : FunctionBody)
    (replace : Bool) :
    SameInputs (e.register name body replace) (e'.register name body replace) := by
  unfold RuleEngine.register Evaluator.register
  rw [h.functions]
  cases (Members.has e.evaluator.functions name && !replace) with
  | true => exact h
  | false => exact ⟨h.rules, rfl, h.catalog, h.graph⟩

/-- An engine that keeps its records in memory and whose functions draw by their names only. -/
structure Plain (e : RuleEngine) : Prop where
  memory : e.catalog.InMemory
  draws : e.evaluator.functions.DrawsByName

theorem Plain.apply (h : Plain e) (hu : u.IsPure) :
    Plain (u.apply e) ∧ (u.apply e).rules = e.rules := by
  cases u with
  | step s =>
    have kept := kept_apply h.memory s
    exact ⟨⟨kept.memory h.memory, kept.functions.symm ▸ h.draws⟩, kept.rules⟩
  | register name body replace =>
    rw [EngineUse.apply]
    rcases e.register_cases name body replace with same | put
    · rw [same]
      exact ⟨h, rfl⟩
    · rw [put]
      exact ⟨⟨h.memory, h.draws.put (hu name body replace rfl) name⟩, rfl⟩

theorem Plain.after (h : Plain e) (pure : ∀ u ∈ uses, u.IsPure) :
    Plain (e.after uses) ∧ (e.after uses).rules = e.rules := by
  induction uses using List.reverseRecOn with
  | nil => exact ⟨h, rfl⟩
  | append_singleton uses u ih =>
    obtain ⟨plain, rules⟩ := ih fun v hv => pure v (List.mem_append_left [u] hv)
    obtain ⟨plain', rules'⟩ := plain.apply (pure u (by simp))
    rw [after_concat]
    exact ⟨plain', rules'.trans rules⟩

/-- What is remembered after a use was remembered before or has just been computed. If anything is
remembered, the use has changed no record, node or edge. -/
theorem entries_use (h : e.catalog.InMemory) (u : EngineUse) :
    ∀ entry ∈ (u.apply e).results.entries, Unchanged e (u.apply e) ∧
      (entry ∈ e.results.entries ∨ ∃ s q now, u = .step s ∧ s.Asks q now ∧
        entry.key = e.keyOf q ∧ e.isCacheable q.filter q.options = true ∧
        e.compute q now = .ok entry.value) := by
  intro entry he
  cases u with
  | step s =>
    obtain ⟨same, old | ⟨q, now, asks, key, cacheable, -, computed⟩⟩ := entries_apply h s entry he
    · exact ⟨same, .inl old⟩
    · exact ⟨same, .inr ⟨s, q, now, rfl, asks, key, cacheable, computed⟩⟩
  | register name body replace =>
    rw [EngineUse.apply] at he ⊢
    rcases e.register_cases name body replace with same | put
    · rw [same] at he ⊢
      exact ⟨.refl e, .inl he⟩
    · rw [put] at he ⊢
      exact ⟨⟨rfl, .refl e.graph⟩, .inl he⟩

/-- A result that the pipeline came to at a moment of a run, after the uses `before`; no use from
then on has changed a record, a node or an edge. -/
structure ComputedAfter (e : RuleEngine) (uses before : List EngineUse) (q : Request)
    (found : QueryResult) : Prop where
  asked : ∃ s now between, uses = before ++ .step s :: between ∧ s.Asks q now ∧
    (e.after before).compute q now = .ok found
  since : ∀ later, later <+: uses → before <+: later → Unchanged (e.after before) (e.after later)

theorem ComputedAfter.concat {before : List EngineUse} {found : QueryResult}
    (h : ComputedAfter e uses before q found)
    (same : Unchanged (e.after uses) (u.apply (e.after uses))) :
    ComputedAfter e (uses ++ [u]) before q found := by
  obtain ⟨s, now, between, rfl, asks, computed⟩ := h.asked
  refine ⟨⟨s, now, between ++ [u], by simp, asks, computed⟩, ?_⟩
  intro later hl hb
  rcases List.prefix_concat_iff.mp hl with rfl | hl
  · rw [after_concat]
    exact (h.since _ List.prefix_rfl (List.prefix_append before _)).trans same
  · exact h.since later hl hb

theorem computedAfter_of_compute {s : EngineStep} {now : Moment} {found : QueryResult}
    (asks : s.Asks q now) (computed : (e.after uses).compute q now = .ok found)
    (same : Unchanged (e.after uses) (s.apply (e.after uses))) :
    ComputedAfter e (uses ++ [.step s]) uses q found := by
  refine ⟨⟨s, now, [], rfl, asks, computed⟩, ?_⟩
  intro later hl hb
  rcases List.prefix_concat_iff.mp hl with rfl | hl
  · rw [after_concat]
    exact same
  · rw [hb.eq_of_length_le hl.length_le]
    exact .refl _

/-- All that is remembered was computed in the run, from the records and edges of now. -/
theorem entries_after (empty : e.results.entries = []) (plain : Plain e)
    (pure : ∀ u ∈ uses, u.IsPure) :
    ∀ entry ∈ (e.after uses).results.entries, ∃ q before, entry.key = e.keyOf q ∧
      e.isCacheable q.filter q.options = true ∧ ComputedAfter e uses before q entry.value := by
  induction uses using List.reverseRecOn with
  | nil =>
    intro entry he
    rw [after, List.foldl_nil, empty] at he
    cases he
  | append_singleton uses u ih =>
    intro entry he
    replace pure : ∀ v ∈ uses, v.IsPure := fun v hv => pure v (List.mem_append_left [u] hv)
    obtain ⟨plain', rules⟩ := plain.after pure
    rw [after_concat] at he
    obtain ⟨same, old | ⟨s, q, now, rfl, asks, key, cacheable, computed⟩⟩ :=
      entries_use plain'.memory u entry he
    · obtain ⟨q, before, key, cacheable, current⟩ := ih pure entry old
      exact ⟨q, before, key, cacheable, current.concat same⟩
    · refine ⟨q, uses, ?_, ?_, computedAfter_of_compute asks computed same⟩
      · rw [key, keyOf, keyOf, rules]
      · rw [← cacheable, isCacheable, isCacheable, rules]

theorem ComputedAfter.mem_textsOf {before : List EngineUse} {found : QueryResult}
    (h : ComputedAfter e uses before q found) {t : String} (ht : t ∈ q.texts) :
    t ∈ EngineUse.textsOf uses := by
  obtain ⟨s, now, between, rfl, asks, -⟩ := h.asked
  exact ⟨s, by simp, q, now, asks, ht⟩

/-- The pipeline comes to a remembered result once more if the functions that the request calls are
those of the time when it was computed. -/
theorem ComputedAfter.compute {before : List EngineUse} {found : QueryResult}
    (h : ComputedAfter e uses before q found) (plain : Plain e) (pure : ∀ u ∈ uses, u.IsPure)
    (cacheable : e.isCacheable q.filter q.options = true)
    (functions : ∀ name, q.Calls name →
      Members.get? (e.after uses).evaluator.functions name =
        Members.get? (e.after before).evaluator.functions name) (now' : Moment) :
    (e.after uses).compute q now' = .ok found := by
  obtain ⟨s, now, between, shape, -, computed⟩ := h.asked
  have earlier : before <+: uses := shape ▸ List.prefix_append before _
  have first := plain.after fun u hu => pure u (earlier.subset hu)
  have last := plain.after pure
  rw [← computed]
  apply compute_congr first.1.memory last.1.memory first.1.draws (last.2.trans first.2.symm)
    functions (h.since uses List.prefix_rfl earlier)
  rw [← cacheable, isCacheable, isCacheable, first.2]

/-- What the registration of functions leaves of remembered results. In every run of requests,
registrations and other steps, an answer that is new is that of the pipeline with the functions of
now. An answer from the cache is what the pipeline came to at an earlier moment of the run, for a
request that is the same up to the order of members, and no record, node or edge has changed since
then. If also none of the functions that the request calls has changed, it is what the pipeline
would come to now. -/
theorem ask_after_registered (empty : e.results.entries = []) (plain : Plain e)
    (uses : List EngineUse) (pure : ∀ u ∈ uses, u.IsPure) (q : Request) (now : Moment)
    (apart : Set.InjOn e.rules.digest (EngineUse.textsOf (uses ++ [.step (.query q now)]))) :
    ∀ r, ((e.after uses).ask q now).1 = .ok r →
      (r.cacheHit = false ∧ (e.after uses).compute q now = .ok r) ∨
      (r.cacheHit = true ∧ ∃ q' found before, q'.Same q ∧ r = { found with cacheHit := true } ∧
        ComputedAfter e uses before q' found ∧
        ((∀ name, q'.Calls name → Members.get? (e.after uses).evaluator.functions name =
            Members.get? (e.after before).evaluator.functions name) →
          ∀ now', (e.after uses).compute q' now' = .ok found)) := by
  intro r hr
  obtain ⟨plain', rules⟩ := plain.after pure
  rcases (answered_ask plain'.memory q now).answer r hr with ⟨entry, he, key, rfl⟩ | computed
  · obtain ⟨q', before, key', cacheable, current⟩ := entries_after empty plain pure entry he
    refine .inr ⟨rfl, q', entry.value, before, ?_, rfl, current, ?_⟩
    · apply same_of_keyOf apart
      · exact fun t ht => EngineUse.textsOf_append (current.mem_textsOf ht)
      · exact fun t ht => ⟨_, by simp, q, now, .query q now, ht⟩
      · rw [← key', key, keyOf, keyOf, rules]
    · exact current.compute plain pure cacheable
  · exact .inl ⟨cacheHit_compute plain'.memory computed, computed⟩

end RuleEngine

namespace RuleEngine.Sample

open QueryRules.Sample

/-- Asks for everything for which a function holds that does not come with the engine. -/
def wager : Request :=
  { filter := { conditions := some [.function ⟨none, none, none, []⟩ "lucky" []] }
    state := {}, options := { sortBy := "found" } }

/-- Holds for everything. -/
def certain : FunctionBody := fun _ _ s => (.ok true, s)

def luck : EngineUse := .register "lucky" certain false

/-- The request is made before its function is registered. -/
def late : List EngineUse := [.step (.query wager noon), luck]

theorem isPure_luck : luck.IsPure := by
  rintro name body replace same
  cases same
  exact fun _ _ _ _ => rfl

theorem isPure_late : ∀ u ∈ late, u.IsPure := by
  intro u hu
  rcases List.mem_pair.mp hu with rfl | rfl
  · exact EngineUse.isPure_step _
  · exact isPure_luck

theorem plain_shop : Plain shop := ⟨EntityCatalog.inMemory_ofList _, BuiltIn.table_drawsByName⟩

/-- At first nothing is found, which is answered once more. -/
theorem ask_late : ∃ r, ((shop.after late).ask wager noon).1 = .ok r ∧ r.cacheHit = true ∧
    r.total = 0 := by
  have cacheable : shop.isCacheable wager.filter wager.options = true := by decide +kernel
  have written : wager.IsWritable shop.rules.room := by decide +kernel
  have nothing : (shop.compute wager noon).toOption.map (·.total) = some 0 := by decide +kernel
  have rules := (plain_shop.after isPure_late).2
  have results : (shop.after late).results = (shop.ask wager noon).2.results := by
    have last : shop.after late = (shop.ask wager noon).2.register "lucky" certain false := rfl
    rw [last]
    rcases register_cases (shop.ask wager noon).2 "lucky" certain false with same | put
    · rw [same]
    · rw [put]
  cases computed : shop.compute wager noon with
  | error why => simp [computed, Except.toOption] at nothing
  | ok found =>
    rw [computed] at nothing
    refine ⟨{ found with cacheHit := true }, ?_, rfl, Option.some.inj nothing⟩
    apply ask_of_held _ (by rwa [rules])
    · rw [results, keyOf, rules]
      exact held_of_ask plain_shop.memory cacheable written (by decide) rfl rfl computed _
    · rw [isCacheable, rules]
      exact cacheable

/-- With the function all records are found. -/
theorem compute_late : ∃ r, (shop.after late).compute wager noon = .ok r ∧ r.total = 4 := by
  have everything : ((luck.apply shop).compute wager noon).toOption.map (·.total) = some 4 := by
    decide +kernel
  have cacheable : (luck.apply shop).isCacheable wager.filter wager.options = true := by
    decide +kernel
  have plain := (plain_shop.apply isPure_luck).1
  have inputs : SameInputs (luck.apply shop) (shop.after late) :=
    (answered_ask plain_shop.memory wager noon).inputs.register "lucky" certain false
  have same : (shop.after late).compute wager noon = (luck.apply shop).compute wager noon :=
    compute_congr plain.memory (inputs.kept.memory plain.memory) plain.draws inputs.rules
      (fun name _ => by rw [inputs.functions]) inputs.unchanged cacheable noon noon
  rw [same]
  cases found : (luck.apply shop).compute wager noon with
  | error why => simp [found, Except.toOption] at everything
  | ok r =>
    rw [found] at everything
    exact ⟨r, rfl, Option.some.inj everything⟩

end RuleEngine.Sample

open RuleEngine.Sample QueryRules.Sample

theorem RuleEngine.ask_after_registered_late :
    shop.results.entries = [] ∧ Plain shop ∧ (∀ u ∈ late, u.IsPure) ∧
      Set.InjOn shop.rules.digest (EngineUse.textsOf (late ++ [.step (.query wager noon)])) ∧
      ∃ r, ((shop.after late).ask wager noon).1 = .ok r ∧ r.cacheHit = true ∧
        ∃ q' found before, q'.Same wager ∧ r = { found with cacheHit := true } ∧
          ComputedAfter shop late before q' found := by
  have apart : Set.InjOn shop.rules.digest
      (EngineUse.textsOf (late ++ [.step (.query wager noon)])) := fun _ _ _ _ same => same
  obtain ⟨r, hr, hit, -⟩ := ask_late
  refine ⟨rfl, plain_shop, isPure_late, apart, r, hr, hit, ?_⟩
  rcases ask_after_registered rfl plain_shop late isPure_late wager noon apart r hr with
    ⟨new, -⟩ | ⟨-, q', found, before, same, shape, computed, -⟩
  · rw [new] at hit
    cases hit
  · exact ⟨q', found, before, same, shape, computed⟩

/-- A registration forgets no result, so an answer from before is given again although the pipeline
would find other records now. -/
theorem RuleEngine.ask_late_stale :
    shop.results.entries = [] ∧ Plain shop ∧ (∀ u ∈ late, u.IsPure) ∧
      ∃ r r', ((shop.after late).ask wager noon).1 = .ok r ∧
        (shop.after late).compute wager noon = .ok r' ∧ r.total = 0 ∧ r'.total = 4 := by
  obtain ⟨r, hr, -, nothing⟩ := ask_late
  obtain ⟨r', hr', everything⟩ := compute_late
  exact ⟨rfl, plain_shop, isPure_late, r, r', hr, hr', nothing, everything⟩

end EntityRules
