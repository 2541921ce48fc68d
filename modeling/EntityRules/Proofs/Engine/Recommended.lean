import EntityRules.Proofs.Engine.Registered
import EntityRules.Proofs.Json.Faithful
import EntityRules.Proofs.Query.Bounds

/-! What an engine recommends. -/

namespace EntityRules

namespace RuleEngine

variable {e e' : RuleEngine} {q q' : Request} {now : Moment} {uses : List EngineUse}

/-- A result that lists what a request asks for, with the records and edges of an engine. -/
def Lists (e : RuleEngine) (q : Request) (r : QueryResult) : Prop :=
  QueryRules.Lists e.rules.query e.catalog e.graph q.filter q.state r

theorem Lists.congr {r : QueryResult} (h : e.Lists q r) (rules : e'.rules = e.rules)
    (same : Unchanged e e') : e'.Lists q r := by
  unfold RuleEngine.Lists
  rw [rules]
  exact QueryRules.Lists.congr h same.records same.edges

/-- An engine that has gone on from another one with the same rules: what it still remembers it
remembered before, and no record, node or edge has changed then. -/
structure GoesOn (e e' : RuleEngine) : Prop where
  rules : e'.rules = e.rules
  held : ∀ entry ∈ e'.results.entries, entry ∈ e.results.entries ∧ Unchanged e e'

theorem GoesOn.refl (e : RuleEngine) : GoesOn e e := ⟨rfl, fun _ he => ⟨he, .refl e⟩⟩

theorem GoesOn.trans {e'' : RuleEngine} (h : GoesOn e e') (h' : GoesOn e' e'') : GoesOn e e'' := by
  refine ⟨h'.rules.trans h.rules, ?_⟩
  intro entry he
  obtain ⟨he, same'⟩ := h'.held entry he
  obtain ⟨he, same⟩ := h.held entry he
  exact ⟨he, same.trans same'⟩

theorem goesOn_of_forgotten (rules : e'.rules = e.rules) (empty : e'.results.entries = []) :
    GoesOn e e' := by
  refine ⟨rules, ?_⟩
  intro entry he
  rw [empty] at he
  cases he

/-- An engine with the same rules, records and edges that remembers nothing new has gone on. -/
theorem goesOn_of_same (rules : e'.rules = e.rules)
    (records : e'.catalog.records = e.catalog.records) (graph : e'.graph = e.graph)
    (held : ∀ entry ∈ e'.results.entries, entry ∈ e.results.entries) : GoesOn e e' :=
  ⟨rules, fun entry he => ⟨held entry he, records, graph ▸ .refl e'.graph⟩⟩

/-- Taking over a graph changes nothing but marks, or makes the engine forget its results. -/
theorem goesOn_withGraph (e : RuleEngine) (s : GraphStep Float) :
    GoesOn e (e.withGraph (s.apply e.graph)) := by
  by_cases same : (s.apply e.graph).revision = e.graph.revision
  · rw [withGraph_of_revision same]
    exact ⟨rfl, fun _ he => ⟨he, rfl, RelationshipGraph.sameEdges_of_revision same⟩⟩
  · exact goesOn_of_forgotten (kept_withGraph e _).rules (entries_withGraph same)

/-- What fetching leads to: records of the kinds that were asked for, if any. -/
structure Fetched (e : RuleEngine) (kinds : List (Option EntityKind))
    (out : Except PipelineTrouble (List (EntityRecord Float)) × RuleEngine) : Prop where
  goesOn : GoesOn e out.2
  records : out.2.catalog.records = e.catalog.records
  found : ∀ es, out.1 = .ok es → ∀ x ∈ es, ∃ kind ∈ kinds, x ∈ e.catalog.ofKind kind

theorem fetched_error {kinds : List (Option EntityKind)} (why : PipelineTrouble)
    (goesOn : GoesOn e e') (records : e'.catalog.records = e.catalog.records) :
    Fetched e kinds (.error why, e') := by
  refine ⟨goesOn, records, ?_⟩
  rintro es same
  cases same

theorem catalog_withGraph (e : RuleEngine) (g : RelationshipGraph Float) :
    (e.withGraph g).catalog = e.catalog := by
  unfold withGraph
  split
  · rfl
  · rfl

theorem fetched_fetchKind (e : RuleEngine) (kind : Option EntityKind) (now : Moment) :
    Fetched e [kind] (e.fetchKind kind now) := by
  have own : ∀ es, (.ok (e.catalog.ofKind kind) : Except PipelineTrouble _) = .ok es →
      ∀ x ∈ es, ∃ k ∈ [kind], x ∈ e.catalog.ofKind k := by
    rintro es same x hx
    cases same
    exact ⟨kind, List.mem_singleton_self kind, hx⟩
  unfold fetchKind
  split
  · exact fetched_error _ (.refl e) rfl
  · dsimp only
    split
    · exact ⟨.refl e, rfl, own⟩
    · next found rest _ =>
      have told : GoesOn e { e with catalog := { e.catalog with discoveries := rest } } :=
        goesOn_of_same rfl rfl rfl fun _ he => he
      refine ⟨told.trans (goesOn_withGraph _ (.add found now)), ?_, own⟩
      rw [catalog_withGraph]

theorem fetched_fetchKinds (kinds : List (Option EntityKind)) (e : RuleEngine) (now : Moment) :
    Fetched e kinds (fetchKinds now kinds e) := by
  induction kinds generalizing e with
  | nil =>
    refine ⟨.refl e, rfl, ?_⟩
    rintro es same x hx
    cases same
    cases hx
  | cons kind rest ih =>
    have first := fetched_fetchKind e kind now
    rw [fetchKinds]
    cases hf : e.fetchKind kind now with
    | mk answer e₁ =>
      rw [hf] at first
      cases answer with
      | error why => exact fetched_error why first.goesOn first.records
      | ok here =>
        have others := ih e₁
        refine ⟨first.goesOn.trans others.goesOn, others.records.trans first.records, ?_⟩
        intro es both x hx
        obtain ⟨behind, hb, rfl⟩ := map_eq_ok.mp both
        rcases List.mem_append.mp hx with hx | hx
        · obtain ⟨k, hk, hx⟩ := first.found here rfl x hx
          exact ⟨k, List.mem_cons.mpr (.inl (List.mem_singleton.mp hk)), hx⟩
        · obtain ⟨k, hk, hx⟩ := others.found behind hb x hx
          exact ⟨k, List.mem_cons_of_mem _ hk, QueryRules.ofKind_congr first.records ▸ hx⟩

theorem fetched_fetch (e : RuleEngine) (filter : QueryFilter) (now : Moment) :
    Fetched e (QueryRules.requests filter) (e.fetch filter now) := by
  have all := fetched_fetchKinds (QueryRules.requests filter) e now
  refine ⟨all.goesOn, all.records, ?_⟩
  intro es distinct x hx
  obtain ⟨fetched, hf, rfl⟩ := map_eq_ok.mp distinct
  exact all.found fetched hf x (QueryRules.mem_distinct hx)

/-- What the pipeline answers lists what was asked for, with the records and edges that there are
after fetching. -/
theorem lists_runPipeline (e : RuleEngine) (q : Request) (now : Moment) :
    GoesOn e (e.runPipeline q.filter q.state q.options now).2 ∧
      ∀ r, (e.runPipeline q.filter q.state q.options now).1 = .ok r →
        (e.runPipeline q.filter q.state q.options now).2.Lists q r := by
  have fetched := fetched_fetch e q.filter now
  unfold runPipeline
  cases hf : e.fetch q.filter now with
  | mk answer e₁ =>
    rw [hf] at fetched
    cases answer with
    | error why => exact ⟨fetched.goesOn, nofun⟩
    | ok found =>
      refine ⟨fetched.goesOn.trans (goesOn_of_same rfl rfl rfl fun _ he => he), ?_⟩
      intro r hr
      apply QueryRules.lists_answer _ hr
      intro x hx
      obtain ⟨kind, hk, hx⟩ := fetched.found found rfl x hx
      exact ⟨kind, hk, QueryRules.ofKind_congr fetched.records ▸ hx⟩

theorem lists_queryAnew (e : RuleEngine) (q : Request) (now : Moment) :
    GoesOn e (e.queryAnew q.filter q.state q.options now).2 ∧
      ∀ r, (e.queryAnew q.filter q.state q.options now).1 = .ok r →
        (e.queryAnew q.filter q.state q.options now).2.Lists q r := by
  obtain ⟨same, lists⟩ := lists_runPipeline e q now
  unfold queryAnew
  cases hp : e.runPipeline q.filter q.state q.options now with
  | mk answer e₁ =>
    rw [hp] at same lists
    cases answer with
    | error why => exact ⟨same.trans (goesOn_of_same rfl rfl rfl fun _ he => he), nofun⟩
    | ok result => exact ⟨same, fun r hr => lists r (congrArg Except.ok (Except.ok.inj hr))⟩

/-- What a query may lead to, whatever the catalog is: what is answered or remembered was remembered
before, or it lists what was asked for. -/
structure Replied (e : RuleEngine) (q : Request)
    (out : Except QueryFailure QueryResult × RuleEngine) : Prop where
  rules : out.2.rules = e.rules
  entries : ∀ entry ∈ out.2.results.entries, entry ∈ e.results.entries ∧ Unchanged e out.2 ∨
    entry.key = e.keyOf q ∧ out.2.Lists q entry.value
  answer : ∀ r, out.1 = .ok r →
    (∃ entry ∈ e.results.entries, entry.key = e.keyOf q ∧ Unchanged e out.2 ∧
      r = { entry.value with cacheHit := true }) ∨ out.2.Lists q r

theorem replied_of_goesOn {out : Except QueryFailure QueryResult × RuleEngine}
    (h : GoesOn e out.2) (lists : ∀ r, out.1 = .ok r → out.2.Lists q r) : Replied e q out :=
  ⟨h.rules, fun entry he => .inl (h.held entry he), fun r hr => .inr (lists r hr)⟩

theorem replied_error (why : QueryFailure) (h : GoesOn e e') : Replied e q (.error why, e') := by
  apply replied_of_goesOn h
  rintro r hr
  cases hr

theorem Replied.of_before {before : RuleEngine}
    {out : Except QueryFailure QueryResult × RuleEngine} (h : Replied before q out)
    (inputs : SameInputs e before)
    (held : ∀ entry ∈ before.results.entries, entry ∈ e.results.entries) : Replied e q out := by
  have key : before.keyOf q = e.keyOf q := by rw [keyOf, keyOf, inputs.rules]
  refine ⟨h.rules.trans inputs.rules, ?_, ?_⟩
  · intro entry he
    rcases h.entries entry he with ⟨old, same⟩ | ⟨hk, lists⟩
    · exact .inl ⟨held entry old, inputs.unchanged.trans same⟩
    · exact .inr ⟨hk.trans key, lists⟩
  · intro r hr
    rcases h.answer r hr with ⟨entry, he, hk, same, shape⟩ | lists
    · exact .inl ⟨entry, held entry he, hk.trans key, inputs.unchanged.trans same, shape⟩
    · exact .inr lists

/-- Remembering an answer that lists what was asked for. -/
theorem replied_remember {after : RuleEngine} {result : QueryResult} (h : GoesOn e after)
    (lists : after.Lists q result) : Replied e q (after.remember (e.keyOf q) result) := by
  unfold remember
  split
  · exact replied_error _ h
  · next results stored =>
    refine ⟨h.rules, ?_, ?_⟩
    · intro entry he
      rcases ResultCache.mem_entries_set stored he with old | ⟨hk, rfl⟩
      · obtain ⟨old, same⟩ := h.held entry old
        exact .inl ⟨old, same.records, same.edges⟩
      · exact .inr ⟨hk, lists⟩
    · rintro r hr
      cases hr
      exact .inr lists

theorem replied_queryRemembered (e : RuleEngine) (q : Request) (now : Moment) :
    Replied e q (e.queryRemembered (e.keyOf q) q.filter q.state q.options now) := by
  have looked : ∀ entry ∈ (e.results.get (e.keyOf q) e.time).2.entries,
      entry ∈ e.results.entries := fun _ => ResultCache.mem_entries_get
  unfold queryRemembered
  split
  · next found results hit =>
    have held : (e.results.get (e.keyOf q) e.time).1 = some found := by rw [hit]
    obtain ⟨entry, he, hk, rfl⟩ := ResultCache.mem_of_get held
    rw [hit] at looked
    refine ⟨rfl, fun entry he => .inl ⟨looked entry he, rfl, .refl e.graph⟩, ?_⟩
    rintro r hr
    cases hr
    exact .inl ⟨entry, he, hk, ⟨rfl, .refl e.graph⟩, rfl⟩
  · next results miss =>
    rw [miss] at looked
    have counted : SameInputs e { e with results } := ⟨rfl, rfl, rfl, rfl⟩
    obtain ⟨same, lists⟩ := lists_queryAnew { e with results } q now
    suffices anew : Replied { e with results } q _ from anew.of_before counted looked
    dsimp only
    split
    · next why after failed =>
      rw [failed] at same
      exact replied_error why same
    · next result after done =>
      rw [done] at same lists
      split
      · exact replied_remember same (lists result rfl)
      · exact replied_of_goesOn same fun r hr => lists r (congrArg Except.ok (Except.ok.inj hr))

theorem replied_ask (e : RuleEngine) (q : Request) (now : Moment) :
    Replied e q (e.ask q now) := by
  have counted : SameInputs e e.counted := ⟨rfl, rfl, rfl, rfl⟩
  rcases e.ask_cases q now with ⟨-, asked⟩ | ⟨-, -, asked⟩ | ⟨-, -, why, -, asked⟩
  · rw [asked]
    obtain ⟨same, lists⟩ := lists_queryAnew e.counted q now
    exact (replied_of_goesOn same lists).of_before counted fun _ he => he
  · rw [asked]
    exact (replied_queryRemembered e.counted q now).of_before counted fun _ he => he
  · rw [asked]
    exact replied_error _ (goesOn_of_same rfl rfl rfl fun _ he => he)

/-- A step that asks for nothing changes nothing but marks, or makes the engine forget its
results. -/
theorem goesOn_apply {s : EngineStep} (quiet : ∀ q now, ¬ s.Asks q now) : GoesOn e (s.apply e) := by
  cases s with
  | addRecord record =>
    exact goesOn_of_forgotten (kept_withCatalog e fun m => m.add record).rules
      (entries_addRecord e record)
  | removeRecord id =>
    rw [EngineStep.apply]
    rcases e.removeRecord_cases id with same | none
    · rw [same]
      exact .refl e
    · exact goesOn_of_forgotten (kept_withCatalog e fun m => m.remove id).rules none
  | graph s => exact goesOn_withGraph e s
  | clearCaches =>
    exact goesOn_of_forgotten (kept_withGraph e.forgetResults _).rules (entries_clearCaches e)
  | advance seconds => exact goesOn_of_same rfl rfl rfl fun _ he => he
  | tick clock => exact goesOn_of_same rfl rfl rfl fun _ he => he
  | query q now => exact absurd (.query q now) (quiet q now)
  | queryDocuments filter state options now =>
    rcases e.queryDocuments_cases filter state options now with ⟨q, asks⟩ | ⟨same, held⟩
    · exact absurd asks (quiet q now)
    · exact goesOn_of_same same.rules (by rw [EngineStep.apply, same.catalog]) same.graph
        fun _ he => held ▸ he

theorem goesOn_register (e : RuleEngine) (name : String) (body : FunctionBody) (replace : Bool) :
    GoesOn e (e.register name body replace) := by
  rcases e.register_cases name body replace with same | put
  · rw [same]
    exact .refl e
  · rw [put]
    exact goesOn_of_same rfl rfl rfl fun _ he => he

/-- Every remembered result lists what a request asked for, one whose texts are among some. -/
structure Sound (e : RuleEngine) (texts : Set String) : Prop where
  entries : ∀ entry ∈ e.results.entries, ∃ q : Request, (∀ t ∈ q.texts, t ∈ texts) ∧
    entry.key = e.keyOf q ∧ e.Lists q entry.value

theorem Sound.goesOn {texts : Set String} (h : e.Sound texts) (on : GoesOn e e') :
    e'.Sound texts := by
  refine ⟨?_⟩
  intro entry he
  obtain ⟨old, same⟩ := on.held entry he
  obtain ⟨q, known, key, lists⟩ := h.entries entry old
  refine ⟨q, known, ?_, lists.congr on.rules same⟩
  rw [key, keyOf, keyOf, on.rules]

theorem Sound.ask {texts : Set String} (h : e.Sound texts) (known : ∀ t ∈ q.texts, t ∈ texts)
    (now : Moment) : (e.ask q now).2.Sound texts := by
  have replied := replied_ask e q now
  refine ⟨?_⟩
  intro entry he
  have rules : (e.ask q now).2.keyOf = e.keyOf := by
    funext q
    rw [keyOf, keyOf, replied.rules]
  rw [rules]
  rcases replied.entries entry he with ⟨old, same⟩ | ⟨key, lists⟩
  · obtain ⟨q', known, key, lists⟩ := h.entries entry old
    exact ⟨q', known, key, lists.congr replied.rules same⟩
  · exact ⟨q, known, key, lists⟩

theorem sound_after (empty : e.results.entries = []) (uses : List EngineUse) :
    (e.after uses).Sound (EngineUse.textsOf uses) ∧ (e.after uses).rules = e.rules := by
  induction uses using List.reverseRecOn with
  | nil =>
    refine ⟨⟨?_⟩, rfl⟩
    intro entry he
    rw [after, List.foldl_nil, empty] at he
    cases he
  | append_singleton uses u ih =>
    obtain ⟨sound, rules⟩ := ih
    have wider : (e.after uses).Sound (EngineUse.textsOf (uses ++ [u])) := by
      refine ⟨?_⟩
      intro entry he
      obtain ⟨q, known, found⟩ := sound.entries entry he
      exact ⟨q, fun t ht => EngineUse.textsOf_append (known t ht), found⟩
    rw [after_concat, ← rules]
    cases u with
    | register name body replace =>
      have on := goesOn_register (e.after uses) name body replace
      exact ⟨wider.goesOn on, on.rules⟩
    | step s =>
      by_cases asking : ∃ q now, s.Asks q now
      · obtain ⟨q, now, asks⟩ := asking
        rw [EngineUse.apply, asks.apply]
        refine ⟨wider.ask ?_ now, (replied_ask (e.after uses) q now).rules⟩
        exact fun t ht => ⟨s, by simp, q, now, asks, ht⟩
      · have on : GoesOn (e.after uses) (s.apply (e.after uses)) :=
          goesOn_apply fun q now asks => asking ⟨q, now, asks⟩
        exact ⟨wider.goesOn on, on.rules⟩

/-- What is asked for to recommend entities of a kind in a state. -/
def recommended (rules : EngineRules) (kind : EntityKind) (state : GameState)
    (maxResults : Option Int) : Request :=
  { filter := recommendation rules kind, state, options := recommendationOptions rules maxResults }

theorem recommend_eq {kind : EntityKind} {state : Json} {s : GameState}
    (hs : GameState.decode state = .ok s) (maxResults : Option Int) (now : Moment) :
    e.recommend kind state maxResults now = e.ask (recommended e.rules kind s maxResults) now := by
  unfold recommend
  rw [hs]
  rfl

/-- A record of a kind whose alignment, if it has one, is not below the floor. -/
structure Suits (e : RuleEngine) (kind : EntityKind) (x : EntityRecord Float) : Prop where
  known : x ∈ e.catalog.ofKind (some kind)
  aligned : ∀ a ∈ x.playerAlignment, ¬ a < e.rules.recommendedAlignment

/-- A record that may be recommended with a score. -/
structure MayRecommend (e : RuleEngine) (kind : EntityKind) (state : GameState)
    (x : QueryRules.Scored) : Prop where
  scored : e.rules.query.scoring.score (recommendation e.rules kind) state x.1 = .ok x.2
  inRange : e.rules.recommendedScore.1 ≤ x.2 ∧ x.2 ≤ e.rules.recommendedScore.2
  /-- The floor holds for the record, or for one from which a relationship leads to it. -/
  origin : e.Suits kind x.1 ∨ ∃ y r, e.Suits kind y ∧ r ∈ e.graph.outgoingOf y.id ∧
    QueryRules.Brings e.rules.query state r ∧ e.catalog.get? r.target = some x.1

theorem suits_of_candidate {kind : EntityKind} {x : EntityRecord Float}
    (h : QueryRules.Candidate e.catalog (recommendation e.rules kind) x) : e.Suits kind x := by
  obtain ⟨⟨k, hk, known⟩, bounded⟩ := h
  obtain rfl : k = some kind := List.mem_singleton.mp hk
  have aligned := (QueryRules.passesBounds_iff.mp bounded).1
  simp only [recommendation, Option.mem_def, Option.some.injEq, forall_eq'] at aligned
  exact ⟨known, aligned⟩

/-- What the request for recommendations lists may be recommended. -/
theorem Lists.mayRecommend {kind : EntityKind} {state : GameState} {maxResults : Option Int}
    {r : QueryResult} (h : e.Lists (recommended e.rules kind state maxResults) r) :
    ∀ x ∈ r.entities.zip r.scores, e.MayRecommend kind state x := by
  intro x hx
  obtain ⟨scored, range, origin⟩ := h.listed x hx
  simp only [QueryRules.WithinRange, recommended, recommendation, Option.mem_def,
    Option.some.injEq, forall_eq'] at range
  refine ⟨scored, range, ?_⟩
  rcases origin with own | ⟨y, edge, hy, he, brings, target⟩
  · exact .inl (suits_of_candidate own)
  · exact .inr ⟨y, edge, suits_of_candidate hy, he, brings, target⟩

/-- The floors of recommendations. Whatever was done with an engine before, and whatever its catalog
and graph are, every recommended record comes with its score, which is in the range, and its
alignment is not below the floor unless a relationship leads to it, one strong enough and of the
context, from a record of the kind that is above the floor itself. -/
theorem recommend_after (empty : e.results.entries = []) (uses : List EngineUse)
    (kind : EntityKind) (state : Json) (maxResults : Option Int) (now : Moment) {s : GameState}
    (hs : GameState.decode state = .ok s)
    (apart : Set.InjOn e.rules.digest
      (EngineUse.textsOf (uses ++ [.step (.query (recommended e.rules kind s maxResults) now)]))) :
    ∀ r, ((e.after uses).recommend kind state maxResults now).1 = .ok r →
      r.scores.length = r.entities.length ∧ ∀ x ∈ r.entities.zip r.scores,
        ((e.after uses).recommend kind state maxResults now).2.MayRecommend kind s x := by
  intro r hr
  obtain ⟨sound, rules⟩ := sound_after empty uses
  obtain ⟨q, hq⟩ : ∃ q, q = recommended (e.after uses).rules kind s maxResults := ⟨_, rfl⟩
  rw [recommend_eq hs, ← hq] at hr ⊢
  have replied := replied_ask (e.after uses) q now
  have lists : ((e.after uses).ask q now).2.Lists q r := by
    rcases replied.answer r hr with ⟨entry, he, key, same, rfl⟩ | lists
    · obtain ⟨q', known, key', lists⟩ := sound.entries entry he
      have alike : q'.Same q := by
        apply same_of_keyOf apart
        · exact fun t ht => EngineUse.textsOf_append (known t ht)
        · rw [← rules, ← hq]
          exact fun t ht => ⟨_, by simp, q, now, .query q now, ht⟩
        · rw [keyOf, keyOf, ← rules]
          exact key'.symm.trans key
      have current := lists.congr replied.rules same
      exact QueryRules.Lists.alike ⟨current.paired, current.listed⟩ alike.filter alike.state
    · exact lists
  refine ⟨lists.paired, ?_⟩
  apply Lists.mayRecommend
  rw [replied.rules, ← hq]
  exact lists

end RuleEngine

namespace RuleEngine.Sample

open QueryRules.Sample

/-- A quest that suits the player, and a thing that belongs to it but does not. -/
def town : RuleEngine :=
  { QueryRules.Sample.engine with
    rules := { QueryRules.Sample.engine.rules with
      digest := id, cacheEnabled := false, recommendedScore := (0.125, 1)
      recommendedAlignment := 0.5 }
    catalog := .ofList [{ entity "a" .quest 5 with playerAlignment := some 0.75 },
      { entity "b" .item 5 with playerAlignment := some 0.25 }]
    graph := { QueryRules.Sample.graph with
      outgoing := [("a", [edge "a" "b"])], incoming := [("b", [edge "a" "b"])] } }

/-- The request for recommendations, asking for no order. -/
def unordered : Request :=
  { recommended town.rules .quest {} none with
    options := { recommendationOptions town.rules none with sortBy := "found" } }

theorem inMemory_town : town.catalog.InMemory := EntityCatalog.inMemory_ofList _

theorem compute_town : ∃ r, town.compute (recommended town.rules .quest {} none) noon = .ok r ∧
    (r.entities.map fun x => (x.id, x.playerAlignment)).Perm
      [("a", some 0.75), ("b", some 0.25)] := by
  have found : (town.compute unordered noon).toOption.map (fun r =>
      (r.entities.map fun x => (x.id, x.playerAlignment), r.total)) =
        some ([("a", some 0.75), ("b", some 0.25)], 2) := by
    decide +kernel
  cases computed : town.compute unordered noon with
  | error why => simp [computed, Except.toOption] at found
  | ok r =>
    rw [computed] at found
    obtain ⟨entities, total⟩ := Prod.mk.inj (Option.some.inj found)
    have all : r.entities.length = r.total := by
      rw [total, ← List.length_map, entities]
      rfl
    rw [compute_eq inMemory_town] at computed
    obtain ⟨r', hr', reordered⟩ := QueryRules.answer_reordered computed all "relevance"
    refine ⟨r', ?_, entities ▸ reordered.map _⟩
    rw [compute_eq inMemory_town]
    exact hr'

theorem recommend_town : ∃ r, (town.recommend .quest (.obj []) none noon).1 = .ok r ∧
    (r.entities.map fun x => (x.id, x.playerAlignment)).Perm
      [("a", some 0.75), ("b", some 0.25)] := by
  obtain ⟨r, computed, entities⟩ := compute_town
  refine ⟨r, ?_, entities⟩
  have fresh : town.counted.isCacheable (recommendation town.rules .quest)
      (recommendationOptions town.rules none) = false := by decide
  have anew :=
    @queryAnew_spec town.counted inMemory_town (recommended town.rules .quest {} none) noon
  rw [recommend_eq rfl none noon, ask, query_eq, recommended, fresh]
  exact (anew.2.2 r).mpr ((compute_counted inMemory_town _ noon).trans computed)

end RuleEngine.Sample

open RuleEngine.Sample QueryRules.Sample

theorem RuleEngine.recommend_after_town :
    town.results.entries = [] ∧ GameState.decode (.obj []) = .ok {} ∧
      Set.InjOn town.rules.digest (EngineUse.textsOf
        ([] ++ [.step (.query (recommended town.rules .quest {} none) noon)])) ∧
      ∃ r, ((town.after []).recommend .quest (.obj []) none noon).1 = .ok r ∧
        r.scores.length = r.entities.length ∧ ∀ x ∈ r.entities.zip r.scores,
          ((town.after []).recommend .quest (.obj []) none noon).2.MayRecommend .quest {} x := by
  have apart : Set.InjOn town.rules.digest (EngineUse.textsOf
      ([] ++ [.step (.query (recommended town.rules .quest {} none) noon)])) :=
    fun _ _ _ _ same => same
  obtain ⟨r, hr, -⟩ := recommend_town
  exact ⟨rfl, rfl, apart, r, hr, recommend_after rfl [] .quest (.obj []) none noon rfl apart r hr⟩

/-- Related records join after the alignment was checked, so a record below the floor is recommended
when a relationship leads to it. -/
theorem RuleEngine.recommend_below_floor :
    ∃ r, (town.recommend .quest (.obj []) none noon).1 = .ok r ∧
      ∃ x ∈ r.entities, ∃ a ∈ x.playerAlignment, a < town.rules.recommendedAlignment := by
  obtain ⟨r, hr, entities⟩ := recommend_town
  have low : ("b", some 0.25) ∈ r.entities.map fun x => (x.id, x.playerAlignment) :=
    entities.mem_iff.mpr (by simp)
  obtain ⟨x, hx, shape⟩ := List.mem_map.mp low
  exact ⟨r, hr, x, hx, 0.25, (Prod.mk.inj shape).2, by decide⟩

end EntityRules
