import EntityRules.Proofs.Decode.Outright
import EntityRules.Proofs.Engine.Recommended
import EntityRules.Proofs.Reread.Model

/-! Queries that fail, and how queries are counted. -/

namespace EntityRules

/-- Fetching from the catalog fails, or it brings nothing to light. -/
def EntityCatalog.IsQuiet (c : EntityCatalog) : Prop := c.failure.isSome ∨ c.discoveries = []

namespace ResultCache

variable {κ ν τ : Type} [DecidableEq κ] [Scalar τ] {c c' : ResultCache κ ν τ} {key : κ} {now : τ}

/-- Every look-up is a hit or a miss. -/
theorem counts_get : (c.get key now).2.hits + (c.get key now).2.misses = c.hits + c.misses + 1 := by
  unfold get
  split
  · rfl
  · dsimp only
    split
    · rfl
    · dsimp only
      omega

/-- Where nothing is found, nothing is held under the key from then on, and all else stays. -/
theorem entries_of_miss (miss : (c.get key now).1 = none) :
    (c.get key now).2.entries.Sublist c.entries ∧
      ∀ e ∈ (c.get key now).2.entries, e.key ≠ key := by
  unfold get at miss ⊢
  split
  · next none =>
    refine ⟨.refl _, fun e he same => ?_⟩
    simpa [same] using List.find?_eq_none.mp none e he
  · next found held =>
    rw [held] at miss
    dsimp only at miss ⊢
    split
    · exact ⟨List.filter_sublist, fun e he => by simpa using (List.mem_filter.mp he).2⟩
    · next fresh =>
      rw [if_neg fresh] at miss
      cases miss

theorem expiry_get {later : τ} : (c.get key now).2.expiry later = c.expiry later := by
  unfold expiry
  rw [ttl_get]

theorem set_eq_ok {value : ν} (stored : c.set key value now = .ok c') :
    c'.hits = c.hits ∧ c'.misses = c.misses := by
  obtain ⟨expiry, -, rfl⟩ := map_eq_ok.mp stored
  exact ⟨rfl, rfl⟩

theorem set_eq_error {value : ν} {why : ExtentTrouble} (h : c.set key value now = .error why) :
    c.expiry now = .error why := by
  unfold set at h
  cases told : c.expiry now with
  | ok expiry =>
    rw [told] at h
    cases h
  | error other =>
    rw [told] at h
    exact congrArg Except.error (Except.error.inj h)

end ResultCache

namespace RuleEngine

variable {e e' : RuleEngine} {q : Request} {now : Moment}

/-- What fetching and answering leave of an engine: its rules, its counts and its records.
Remembered results may be forgotten, if the catalog brings something to light. -/
structure Leaves (e e' : RuleEngine) : Prop where
  rules : e'.rules = e.rules
  time : e'.time = e.time
  queries : e'.queries = e.queries
  failures : e'.failures = e.failures
  results : e'.results = e.results ∨ e'.results = e.results.clear
  records : e'.catalog.records = e.catalog.records
  quiet : e.catalog.IsQuiet → e'.catalog = e.catalog ∧ e'.graph = e.graph

theorem Leaves.refl (e : RuleEngine) : Leaves e e :=
  ⟨rfl, rfl, rfl, rfl, .inl rfl, rfl, fun _ => ⟨rfl, rfl⟩⟩

theorem Leaves.trans {e'' : RuleEngine} (h : Leaves e e') (h' : Leaves e' e'') : Leaves e e'' := by
  constructor
  · exact h'.rules.trans h.rules
  · exact h'.time.trans h.time
  · exact h'.queries.trans h.queries
  · exact h'.failures.trans h.failures
  · rcases h'.results with same' | cleared' <;> rcases h.results with same | cleared
    · exact .inl (same'.trans same)
    · exact .inr (same'.trans cleared)
    · exact .inr (by rw [cleared', same])
    · exact .inr (by rw [cleared', cleared]; rfl)
  · exact h'.records.trans h.records
  · intro quiet
    obtain ⟨catalog, graph⟩ := h.quiet quiet
    obtain ⟨catalog', graph'⟩ := h'.quiet (catalog ▸ quiet)
    exact ⟨catalog'.trans catalog, graph'.trans graph⟩

/-- What is remembered is what was remembered, or nothing. -/
theorem Leaves.entries (h : Leaves e e') : e'.results.entries.Sublist e.results.entries := by
  rcases h.results with same | cleared
  · rw [same]
  · rw [cleared]
    exact List.nil_sublist _

theorem Leaves.counts (h : Leaves e e') :
    e'.results.hits = e.results.hits ∧ e'.results.misses = e.results.misses := by
  rcases h.results with same | cleared
  · rw [same]
    exact ⟨rfl, rfl⟩
  · rw [cleared]
    exact ⟨rfl, rfl⟩

theorem Leaves.expiry (h : Leaves e e') :
    e'.results.expiry e'.time = e.results.expiry e.time := by
  rw [h.time]
  rcases h.results with same | cleared
  · rw [same]
  · rw [cleared]
    rfl

/-- A relationship that comes to light is taken into the graph. -/
theorem leaves_discovered {found : Relationship Float} {rest : List (Relationship Float)}
    (fetches : e.catalog.failure = none) (finds : e.catalog.discoveries = found :: rest)
    (g : RelationshipGraph Float) :
    Leaves e ({ e with catalog := { e.catalog with discoveries := rest } }.withGraph g) := by
  have loud : ¬ e.catalog.IsQuiet := by simp [EntityCatalog.IsQuiet, fetches, finds]
  unfold withGraph
  split
  · exact ⟨rfl, rfl, rfl, rfl, .inl rfl, rfl, fun quiet => absurd quiet loud⟩
  · exact ⟨rfl, rfl, rfl, rfl, .inr rfl, rfl, fun quiet => absurd quiet loud⟩

theorem leaves_fetchKind (e : RuleEngine) (kind : Option EntityKind) (now : Moment) :
    Leaves e (e.fetchKind kind now).2 := by
  unfold fetchKind
  split
  · exact .refl e
  · next fetches =>
    dsimp only
    split
    · exact .refl e
    · next found rest finds => exact leaves_discovered fetches finds _

theorem leaves_fetchKinds (kinds : List (Option EntityKind)) (e : RuleEngine) (now : Moment) :
    Leaves e (fetchKinds now kinds e).2 := by
  induction kinds generalizing e with
  | nil => exact .refl e
  | cons kind rest ih =>
    have first := leaves_fetchKind e kind now
    rw [fetchKinds]
    cases hf : e.fetchKind kind now with
    | mk answer e₁ =>
      rw [hf] at first
      cases answer with
      | error why => exact first
      | ok here => exact first.trans (ih e₁)

theorem leaves_runPipeline (e : RuleEngine) (q : Request) (now : Moment) :
    Leaves e (e.runPipeline q.filter q.state q.options now).2 ∧
      ∀ r, (e.runPipeline q.filter q.state q.options now).1 = .ok r → r.cacheHit = false := by
  have fetched : Leaves e (e.fetch q.filter now).2 := leaves_fetchKinds _ e now
  unfold runPipeline
  cases hf : e.fetch q.filter now with
  | mk answer e₁ =>
    rw [hf] at fetched
    cases answer with
    | error why => exact ⟨fetched, nofun⟩
    | ok found =>
      refine ⟨fetched.trans ⟨rfl, rfl, rfl, rfl, .inl rfl, rfl, fun _ => ⟨rfl, rfl⟩⟩, ?_⟩
      exact fun r hr => QueryRules.cacheHit_answer hr

/-- Answering anew gives a new result, or a trouble that is reported and counted. -/
theorem queryAnew_cases (e : RuleEngine) (q : Request) (now : Moment) :
    (∃ r e', e.queryAnew q.filter q.state q.options now = (.ok r, e') ∧ r.cacheHit = false ∧
      Leaves e e') ∨
    ∃ why e', e.queryAnew q.filter q.state q.options now =
        (.error (.reported (.pipeline why q.filter q.options)),
          { e' with failures := e'.failures + 1 }) ∧
      Leaves e e' := by
  obtain ⟨leaves, new⟩ := leaves_runPipeline e q now
  unfold queryAnew
  cases hp : e.runPipeline q.filter q.state q.options now with
  | mk answer e₁ =>
    rw [hp] at leaves new
    cases answer with
    | ok r => exact .inl ⟨r, e₁, rfl, new r rfl, leaves⟩
    | error why => exact .inr ⟨why, e₁, rfl, leaves⟩

/-- A query is looked up if it can be remembered and can be written. -/
def LooksUp (e : RuleEngine) (q : Request) : Prop :=
  e.isCacheable q.filter q.options = true ∧ q.IsWritable e.rules.room

instance (e : RuleEngine) (q : Request) : Decidable (e.LooksUp q) :=
  inferInstanceAs (Decidable (_ ∧ _))

/-- How many failures an answer counts as. -/
def reports : Except QueryFailure QueryResult → Nat
  | .error (.reported _) => 1
  | _ => 0

/-- What a query that failed leaves of an engine: nothing new is remembered and nothing under the
key of the query, and no record has changed. Nor has the graph, unless the catalog brought a
relationship to light. -/
structure NothingBehind (e : RuleEngine) (q : Request) (e' : RuleEngine) : Prop where
  entries : e'.results.entries.Sublist e.results.entries
  own : e.LooksUp q → ∀ entry ∈ e'.results.entries, entry.key ≠ e.keyOf q
  records : e'.catalog.records = e.catalog.records
  quiet : e.catalog.IsQuiet → e'.catalog = e.catalog ∧ e'.graph = e.graph

/-- What a query does, whatever comes of it. -/
structure Accounted (e : RuleEngine) (q : Request)
    (out : Except QueryFailure QueryResult × RuleEngine) : Prop where
  rules : out.2.rules = e.rules
  queries : out.2.queries = e.queries + 1
  failures : out.2.failures = e.failures + reports out.1
  looked : out.2.results.hits + out.2.results.misses =
    e.results.hits + e.results.misses + if e.LooksUp q then 1 else 0
  reported : ∀ why, out.1 = .error (.reported why) →
    ∃ trouble, why = .pipeline trouble q.filter q.options
  unwritable : ∀ why, out.1 = .error (.unwritable why) ↔
    e.isCacheable q.filter q.options = true ∧ e.fingerprint q = .error why
  lifetime : ∀ why, out.1 = .error (.lifetime why) →
    e.LooksUp q ∧ e.results.expiry e.time = .error why
  failed : ∀ why, out.1 = .error why → NothingBehind e q out.2
  /-- What is remembered was remembered before, as it was, or it is the result of this query. -/
  stored : ∀ entry ∈ out.2.results.entries, entry ∈ e.results.entries ∨
    entry.key = e.keyOf q ∧ e.LooksUp q ∧ out.1 = .ok entry.value
  held : ∀ r, out.1 = .ok r → r.cacheHit = true →
    e.LooksUp q ∧ ∃ entry ∈ e.results.entries, entry.key = e.keyOf q ∧
      r = { entry.value with cacheHit := true }

/-- The engine that a query is answered anew from: it has counted the query, and the look-up if
there was one, which found nothing. -/
structure Asked (e : RuleEngine) (q : Request) (b : RuleEngine) : Prop where
  rules : b.rules = e.rules
  queries : b.queries = e.queries + 1
  failures : b.failures = e.failures
  looked : b.results.hits + b.results.misses =
    e.results.hits + e.results.misses + if e.LooksUp q then 1 else 0
  expiry : b.results.expiry b.time = e.results.expiry e.time
  entries : b.results.entries.Sublist e.results.entries
  own : e.LooksUp q → ∀ entry ∈ b.results.entries, entry.key ≠ e.keyOf q
  catalog : b.catalog = e.catalog
  graph : b.graph = e.graph
  writable : e.isCacheable q.filter q.options = true → q.IsWritable e.rules.room

variable {b : RuleEngine} {r : QueryResult}

theorem asked_counted (skips : e.isCacheable q.filter q.options = false) :
    Asked e q e.counted := by
  have apart : ¬ e.LooksUp q := by simp [LooksUp, skips]
  refine ⟨rfl, rfl, rfl, ?_, rfl, .refl _, fun looks => absurd looks apart, rfl, rfl, ?_⟩
  · rw [if_neg apart]
    rfl
  · simp [skips]

theorem asked_missed (looks : e.LooksUp q) (miss : (e.results.get (e.keyOf q) e.time).1 = none) :
    Asked e q { e.counted with results := (e.results.get (e.keyOf q) e.time).2 } := by
  obtain ⟨fewer, apart⟩ := ResultCache.entries_of_miss miss
  refine ⟨rfl, rfl, rfl, ?_, ?_, fewer, fun _ => apart, rfl, rfl, fun _ => looks.2⟩
  · rw [if_pos looks]
    exact ResultCache.counts_get
  · exact ResultCache.expiry_get

theorem Asked.not_unwritable (h : Asked e q b) (why : Json.PrintTrouble) :
    ¬ (e.isCacheable q.filter q.options = true ∧ e.fingerprint q = .error why) :=
  fun ⟨cacheable, refused⟩ => fingerprint_eq_error_iff.mp ⟨why, refused⟩ (h.writable cacheable)

theorem Asked.nothingBehind (h : Asked e q b) (leaves : Leaves b e') : NothingBehind e q e' := by
  constructor
  · exact leaves.entries.trans h.entries
  · exact fun looks entry he => h.own looks entry (leaves.entries.subset he)
  · exact leaves.records.trans (congrArg EntityCatalog.records h.catalog)
  · intro quiet
    obtain ⟨catalog, graph⟩ := leaves.quiet (h.catalog ▸ quiet)
    exact ⟨catalog.trans h.catalog, graph.trans h.graph⟩

theorem Asked.looked_after (h : Asked e q b) (leaves : Leaves b e') :
    e'.results.hits + e'.results.misses =
      e.results.hits + e.results.misses + if e.LooksUp q then 1 else 0 := by
  rw [leaves.counts.1, leaves.counts.2, h.looked]

/-- A new result that is not stored. -/
theorem Asked.answered (h : Asked e q b) (leaves : Leaves b e') (new : r.cacheHit = false) :
    Accounted e q (.ok r, e') := by
  constructor
  · exact leaves.rules.trans h.rules
  · exact leaves.queries.trans h.queries
  · exact leaves.failures.trans h.failures
  · exact h.looked_after leaves
  · rintro _ ⟨⟩
  · exact fun why => iff_of_false nofun (h.not_unwritable why)
  · rintro _ ⟨⟩
  · rintro _ ⟨⟩
  · exact fun entry he => .inl ((leaves.entries.trans h.entries).subset he)
  · rintro _ ⟨⟩ hit
    rw [new] at hit
    cases hit

/-- A trouble of the pipeline, which is counted. -/
theorem Asked.troubled (h : Asked e q b) (leaves : Leaves b e') (why : PipelineTrouble) :
    Accounted e q (.error (.reported (.pipeline why q.filter q.options)),
      { e' with failures := e'.failures + 1 }) := by
  have behind := h.nothingBehind leaves
  constructor
  · exact leaves.rules.trans h.rules
  · exact leaves.queries.trans h.queries
  · exact congrArg (· + 1) (leaves.failures.trans h.failures)
  · rw [← h.looked_after leaves]
  · rintro _ ⟨⟩
    exact ⟨why, rfl⟩
  · exact fun why => iff_of_false nofun (h.not_unwritable why)
  · rintro _ ⟨⟩
  · exact fun _ _ => ⟨behind.entries, behind.own, behind.records, behind.quiet⟩
  · exact fun entry he => .inl (behind.entries.subset he)
  · rintro _ ⟨⟩

/-- A new result that is stored, if it can be told for how long. -/
theorem Asked.remembered (h : Asked e q b) (looks : e.LooksUp q) (leaves : Leaves b e')
    (new : r.cacheHit = false) : Accounted e q (e'.remember (e.keyOf q) r) := by
  have told : e'.results.expiry e'.time = e.results.expiry e.time := leaves.expiry.trans h.expiry
  unfold remember
  split
  · next why untold =>
    constructor
    · exact leaves.rules.trans h.rules
    · exact leaves.queries.trans h.queries
    · exact leaves.failures.trans h.failures
    · exact h.looked_after leaves
    · rintro _ ⟨⟩
    · exact fun why => iff_of_false nofun (h.not_unwritable why)
    · rintro _ ⟨⟩
      exact ⟨looks, told ▸ ResultCache.set_eq_error untold⟩
    · exact fun _ _ => h.nothingBehind leaves
    · exact fun entry he => .inl ((leaves.entries.trans h.entries).subset he)
    · rintro _ ⟨⟩
  · next results stored =>
    obtain ⟨hits, misses⟩ := ResultCache.set_eq_ok stored
    constructor
    · exact leaves.rules.trans h.rules
    · exact leaves.queries.trans h.queries
    · exact leaves.failures.trans h.failures
    · exact (congrArg₂ (· + ·) hits misses).trans (h.looked_after leaves)
    · rintro _ ⟨⟩
    · exact fun why => iff_of_false nofun (h.not_unwritable why)
    · rintro _ ⟨⟩
    · rintro _ ⟨⟩
    · intro entry he
      rcases ResultCache.mem_entries_set stored he with old | ⟨key, value⟩
      · exact .inl ((leaves.entries.trans h.entries).subset old)
      · exact .inr ⟨key, looks, congrArg Except.ok value.symm⟩
    · rintro _ ⟨⟩ hit
      rw [new] at hit
      cases hit

theorem Asked.anew (h : Asked e q b) (now : Moment) :
    Accounted e q (b.queryAnew q.filter q.state q.options now) := by
  rcases queryAnew_cases b q now with ⟨r, e', answer, new, leaves⟩ | ⟨why, e', answer, leaves⟩
  · rw [answer]
    exact h.answered leaves new
  · rw [answer]
    exact h.troubled leaves why

theorem accounted_queryRemembered (looks : e.LooksUp q) (now : Moment) :
    Accounted e q (e.counted.queryRemembered (e.keyOf q) q.filter q.state q.options now) := by
  unfold queryRemembered
  split
  · next found results hit =>
    have same : results = (e.results.get (e.keyOf q) e.time).2 := (congrArg Prod.snd hit).symm
    have held : (e.results.get (e.keyOf q) e.time).1 = some found := congrArg Prod.fst hit
    have known : ∀ entry ∈ results.entries, entry ∈ e.results.entries :=
      same ▸ fun _ => ResultCache.mem_entries_get
    constructor
    · rfl
    · rfl
    · rfl
    · rw [if_pos looks]
      exact same ▸ ResultCache.counts_get
    · rintro _ ⟨⟩
    · refine fun why => iff_of_false nofun fun ⟨_, refused⟩ => ?_
      exact fingerprint_eq_error_iff.mp ⟨why, refused⟩ looks.2
    · rintro _ ⟨⟩
    · rintro _ ⟨⟩
    · exact fun entry he => .inl (known entry he)
    · rintro _ ⟨⟩ -
      obtain ⟨entry, he, key, rfl⟩ := ResultCache.mem_of_get held
      exact ⟨looks, entry, he, key, rfl⟩
  · next results missed =>
    have same : results = (e.results.get (e.keyOf q) e.time).2 := (congrArg Prod.snd missed).symm
    have asked : Asked e q { e.counted with results } :=
      same ▸ asked_missed looks (congrArg Prod.fst missed)
    dsimp only
    rcases queryAnew_cases { e.counted with results } q now with
      ⟨r, e', answer, new, leaves⟩ | ⟨why, e', answer, leaves⟩
    · rw [answer]
      dsimp only
      split
      · exact asked.remembered looks leaves new
      · exact asked.answered leaves new
    · rw [answer]
      exact asked.troubled leaves why

/-- A query that cannot be written has no fingerprint to look for. -/
theorem accounted_unwritable {why : Json.PrintTrouble}
    (cacheable : e.isCacheable q.filter q.options = true) (refused : e.fingerprint q = .error why) :
    Accounted e q (.error (.unwritable why), e.counted) := by
  have apart : ¬ e.LooksUp q := fun looks => fingerprint_eq_error_iff.mp ⟨why, refused⟩ looks.2
  constructor
  · rfl
  · rfl
  · rfl
  · rw [if_neg apart]
    rfl
  · rintro _ ⟨⟩
  · intro other
    rw [refused, Except.error.injEq, Except.error.injEq, QueryFailure.unwritable.injEq]
    exact (and_iff_right cacheable).symm
  · rintro _ ⟨⟩
  · exact fun _ _ => ⟨.refl _, fun looks => absurd looks apart, rfl, fun _ => ⟨rfl, rfl⟩⟩
  · exact fun entry he => .inl he
  · rintro _ ⟨⟩

theorem accounted_ask (e : RuleEngine) (q : Request) (now : Moment) :
    Accounted e q (e.ask q now) := by
  rcases e.ask_cases q now with
    ⟨skips, asked⟩ | ⟨cacheable, written, asked⟩ | ⟨cacheable, -, why, refused, asked⟩
  · rw [asked]
    exact (asked_counted skips).anew now
  · rw [asked]
    exact accounted_queryRemembered ⟨cacheable, written⟩ now
  · rw [asked]
    exact accounted_unwritable cacheable refused

/-- A result that a query under a key was answered with in the course of some uses. -/
def AnsweredDuring (e : RuleEngine) (uses : List EngineUse) (key : Fingerprint)
    (found : QueryResult) : Prop :=
  ∃ before s rest q now, uses = before ++ .step s :: rest ∧ s.Asks q now ∧
    (e.after before).keyOf q = key ∧ ((e.after before).ask q now).1 = .ok found

theorem AnsweredDuring.append {uses : List EngineUse} {key : Fingerprint} {found : QueryResult}
    (h : AnsweredDuring e uses key found) (more : List EngineUse) :
    AnsweredDuring e (uses ++ more) key found := by
  obtain ⟨before, s, rest, q, now, rfl, asks⟩ := h
  exact ⟨before, s, rest ++ more, q, now, by simp, asks⟩

/-- What is remembered after some uses was remembered before, or a query was answered with it. -/
theorem answered_entries_after (e : RuleEngine) (uses : List EngineUse) :
    (e.after uses).rules = e.rules ∧ ∀ entry ∈ (e.after uses).results.entries,
      entry ∈ e.results.entries ∨ AnsweredDuring e uses entry.key entry.value := by
  induction uses using List.reverseRecOn with
  | nil => exact ⟨rfl, fun entry he => .inl he⟩
  | append_singleton uses u ih =>
    obtain ⟨rules, known⟩ := ih
    have goesOn : ∀ {e'}, GoesOn (e.after uses) e' → e'.rules = e.rules ∧
        ∀ entry ∈ e'.results.entries,
          entry ∈ e.results.entries ∨ AnsweredDuring e (uses ++ [u]) entry.key entry.value := by
      intro e' on
      refine ⟨on.rules.trans rules, fun entry he => ?_⟩
      exact (known entry (on.held entry he).1).imp_right fun found => found.append [u]
    rw [after_concat]
    cases u with
    | register name body replace => exact goesOn (goesOn_register _ name body replace)
    | step s =>
      by_cases asking : ∃ q now, s.Asks q now
      · obtain ⟨q, now, asks⟩ := asking
        have accounted := accounted_ask (e.after uses) q now
        rw [EngineUse.apply, asks.apply]
        refine ⟨accounted.rules.trans rules, fun entry he => ?_⟩
        rcases accounted.stored entry he with old | ⟨key, -, answer⟩
        · exact (known entry old).imp_right fun found => found.append _
        · exact .inr ⟨uses, s, [], q, now, rfl, asks, key.symm, answer⟩
      · exact goesOn (goesOn_apply fun q now asks => asking ⟨q, now, asks⟩)

/-- If a query that has failed is answered from the cache later on, then with the result of a query
of the same key that was answered in the meantime. -/
theorem answeredDuring_of_failed {why : QueryFailure} {found : QueryResult} {later : Moment}
    {uses : List EngineUse} (failed : (e.ask q now).1 = .error why)
    (answered : (((e.ask q now).2.after uses).ask q later).1 = .ok found)
    (hit : found.cacheHit = true) :
    ∃ r, AnsweredDuring (e.ask q now).2 uses (e.keyOf q) r ∧ found = { r with cacheHit := true } := by
  obtain ⟨rules, known⟩ := answered_entries_after (e.ask q now).2 uses
  have first := accounted_ask e q now
  have same : ((e.ask q now).2.after uses).rules = e.rules := rules.trans first.rules
  obtain ⟨looks, entry, he, key, shape⟩ := (accounted_ask _ q later).held found answered hit
  have key' : entry.key = e.keyOf q := by rw [key, keyOf, keyOf, same]
  have looks' : e.LooksUp q := by
    unfold LooksUp isCacheable at looks ⊢
    rwa [same] at looks
  refine ⟨entry.value, ?_, shape⟩
  rcases known entry he with old | during
  · exact absurd key' ((first.failed why failed).own looks' entry old)
  · rwa [← key']

/-- What makes a query fail without a report: it could be remembered, but has no fingerprint since a
part of it cannot be written, or it cannot be told how long the result is to be remembered. -/
def Unreported (e : RuleEngine) (q : Request) : QueryFailure → Prop
  | .reported _ => False
  | .unwritable why => e.isCacheable q.filter q.options = true ∧ ¬ q.IsWritable e.rules.room ∧
      e.fingerprint q = .error why
  | .lifetime why => e.LooksUp q ∧ e.results.expiry e.time = .error why

theorem Accounted.reported_or {out : Except QueryFailure QueryResult × RuleEngine}
    (h : Accounted e q out) {why : QueryFailure} (failed : out.1 = .error why) :
    (∃ trouble, why = .reported (.pipeline trouble q.filter q.options)) ∨ Unreported e q why := by
  cases why with
  | reported trouble =>
    obtain ⟨trouble, rfl⟩ := h.reported _ failed
    exact .inl ⟨trouble, rfl⟩
  | unwritable why =>
    obtain ⟨cacheable, refused⟩ := (h.unwritable why).mp failed
    exact .inr ⟨cacheable, fingerprint_eq_error_iff.mp ⟨why, refused⟩, refused⟩
  | lifetime why => exact .inr (h.lifetime why failed)

theorem outright_readRequest (filter options : Json) :
    (readRequest filter options).outright = none := by
  unfold readRequest
  cases read : QueryFilter.decode filter with
  | refused why =>
    have none := QueryFilter.outright_decode filter
    rw [read] at none
    cases why <;> first | rfl | cases none
  | ok f => cases options <;> simp [Decoded.andThen]

theorem queryDocuments_of_asks {filter state options : Json}
    (h : EngineStep.Asks (.queryDocuments filter state options now) q now) (e : RuleEngine) :
    e.queryDocuments filter state options now = e.ask q now := by
  cases h with
  | documents hs hr =>
    unfold queryDocuments
    rw [hs, hr]
    rfl

/-- Documents that are answered at one time can be read at all times. -/
theorem asks_of_ok {filter state options : Json} {found : QueryResult}
    (h : (e.queryDocuments filter state options now).1 = .ok found) :
    ∃ q, ∀ now, EngineStep.Asks (.queryDocuments filter state options now) q now := by
  unfold queryDocuments at h
  cases hs : GameState.decode state with
  | refused why =>
    rw [hs] at h
    cases h
  | ok s =>
    cases hr : readRequest filter options with
    | refused why =>
      rw [hs, hr] at h
      cases h
    | ok request => exact ⟨⟨request.1, s, request.2⟩, fun _ => .documents hs hr⟩

namespace Sample

open QueryRules.Sample (engine entity noon)

/-- An engine with a record whose level is beyond all others, and one that can be scored. Its
digests tell nothing apart. -/
def crowded : RuleEngine :=
  { engine with
    rules := { engine.rules with digest := fun _ => "" }
    catalog := .ofList [{ entity "a" .quest 1 with requiredLevel := some (Int.pow 10 400) },
      entity "b" .item 3] }

/-- Results as they were found. -/
def asFound : Json := .obj [("sort_by", .str "found")]

/-- The record that cannot be scored is removed, and the query is repeated. -/
def repaired : List EngineUse :=
  [.step (.removeRecord "a"), .step (.queryDocuments (.obj []) (.obj []) asFound noon)]

/-- What the documents ask for. -/
def everything : Request := { filter := {}, state := {}, options := { sortBy := "found" } }

theorem asks_everything :
    EngineStep.Asks (.queryDocuments (.obj []) (.obj []) asFound noon) everything noon :=
  .documents rfl rfl

end Sample

open Sample

open QueryRules.Sample (engine noon)

theorem layers_deepFilter : Form.Sample.deepFilter.layers = 256 := by
  simp [QueryFilter.layers, Condition.layersHeld, deepestOf, Form.Sample.deepFilter,
    Condition.layers, Condition.layersInside, Condition.tag, Json.layersOfMembers,
    Form.layers_nested]

end RuleEngine

end EntityRules
