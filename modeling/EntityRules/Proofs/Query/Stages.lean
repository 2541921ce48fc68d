import EntityRules.Engine
import EntityRules.Proofs.Query.Meaning

/-! What each stage of a query does to its list. -/

namespace EntityRules

variable {catalog : EntityCatalog} {filter : QueryFilter} {state : GameState} {clock : Int}
  {rules : QueryRules} {es kept : List (EntityRecord Float)}

namespace RuleEngine

theorem fetchKinds_inMemory {e : RuleEngine} (h : e.catalog.InMemory) (now : Moment)
    (kinds : List (Option EntityKind)) :
    fetchKinds now kinds e = (.ok (kinds.flatMap e.catalog.ofKind), e) := by
  obtain ⟨failure, discoveries⟩ := h.plain
  induction kinds with
  | nil => rfl
  | cons kind rest ih =>
    have first : e.fetchKind kind now = (.ok (e.catalog.ofKind kind), e) := by
      simp only [fetchKind, failure, discoveries]
    rw [fetchKinds, first]
    simp only [ih]
    rfl

/-- Fetching from memory leaves the engine as it is. -/
theorem fetch_inMemory {e : RuleEngine} (h : e.catalog.InMemory) (filter : QueryFilter)
    (now : Moment) :
    e.fetch filter now =
      (.ok (QueryRules.distinct [] ((QueryRules.requests filter).flatMap e.catalog.ofKind)), e) := by
  rw [fetch, fetchKinds_inMemory h]
  rfl

end RuleEngine

namespace QueryRules

/-- Only the members of what was seen matter. -/
theorem distinct_congr {seen seen' : List String} (h : ∀ id, id ∈ seen ↔ id ∈ seen')
    (es : List (EntityRecord Float)) : distinct seen es = distinct seen' es := by
  induction es generalizing seen seen' with
  | nil => rfl
  | cons e rest ih =>
    have next : ∀ id, id ∈ e.id :: seen ↔ id ∈ e.id :: seen' := by
      intro id
      simp only [List.mem_cons, h]
    rw [distinct, distinct, ih h, ih next]
    simp only [h]

theorem distinct_append (seen : List String) (xs ys : List (EntityRecord Float)) :
    distinct seen (xs ++ ys) = distinct seen xs ++ distinct (seen ++ xs.map (·.id)) ys := by
  induction xs generalizing seen with
  | nil => simp [distinct]
  | cons x rest ih =>
    rw [List.cons_append, distinct, distinct]
    split
    · next hx =>
      rw [ih]
      congr 1
      apply distinct_congr
      intro id
      simp only [List.map_cons, List.mem_append, List.mem_cons]
      constructor
      · rintro (h | h)
        · exact .inl h
        · exact .inr (.inr h)
      · rintro (h | rfl | h)
        · exact .inl h
        · exact .inl hx
        · exact .inr h
    · rw [ih, List.cons_append]
      congr 2
      apply distinct_congr
      intro id
      simp only [List.map_cons, List.mem_append, List.mem_cons]
      tauto

theorem distinct_of_seen {seen : List String} (h : ∀ e ∈ es, e.id ∈ seen) :
    distinct seen es = [] := by
  induction es with
  | nil => rfl
  | cons e rest ih =>
    rw [distinct, if_pos (h e List.mem_cons_self)]
    exact ih fun x hx => h x (List.mem_cons_of_mem _ hx)

theorem distinct_of_new {seen : List String} (hn : (es.map (·.id)).Nodup)
    (h : ∀ e ∈ es, e.id ∉ seen) : distinct seen es = es := by
  induction es generalizing seen with
  | nil => rfl
  | cons e rest ih =>
    rw [List.map_cons, List.nodup_cons] at hn
    rw [distinct, if_neg (h e List.mem_cons_self), ih hn.2]
    intro x hx
    rw [List.mem_cons, not_or]
    refine ⟨?_, h x (List.mem_cons_of_mem _ hx)⟩
    intro same
    exact hn.1 (same ▸ List.mem_map_of_mem hx)

/-- Records of one catalog with one identifier are one record. -/
theorem eq_of_id (h : catalog.InMemory) {a b : EntityRecord Float} (ha : a ∈ catalog.all)
    (hb : b ∈ catalog.all) (same : a.id = b.id) : a = b :=
  List.inj_on_of_nodup_map h.nodup_ids ha hb same

theorem ofKind_eq (kind : EntityKind) :
    catalog.ofKind (some kind) = catalog.all.filter (·.kind = kind) := rfl

/-- Behind the records of the kinds in `done`, those of more kinds are the ones of the kinds that
are not done, each kind once. -/
theorem distinct_kinds (h : catalog.InMemory) (done kinds : List EntityKind) :
    distinct ((done.flatMap fun k => catalog.ofKind (some k)).map (·.id))
        (kinds.flatMap fun k => catalog.ofKind (some k)) =
      (kinds.filter (· ∉ done)).eraseDups.flatMap fun k => catalog.ofKind (some k) := by
  have seen : ∀ e ∈ catalog.all, ∀ done : List EntityKind,
      e.id ∈ (done.flatMap fun k => catalog.ofKind (some k)).map (·.id) ↔ e.kind ∈ done := by
    intro e he done
    simp only [List.mem_map, List.mem_flatMap, ofKind_eq, List.mem_filter, decide_eq_true_eq]
    constructor
    · rintro ⟨e', ⟨k, hk, he', rfl⟩, same⟩
      exact eq_of_id h he' he same ▸ hk
    · intro hk
      exact ⟨e, ⟨_, hk, he, rfl⟩, rfl⟩
  induction kinds generalizing done with
  | nil => rfl
  | cons k rest ih =>
    rw [List.flatMap_cons, distinct_append]
    by_cases hk : k ∈ done
    · have old : distinct ((done.flatMap fun k => catalog.ofKind (some k)).map (·.id))
          (catalog.ofKind (some k)) = [] := by
        apply distinct_of_seen
        intro e he
        rw [ofKind_eq, List.mem_filter, decide_eq_true_eq] at he
        exact (seen e he.1 done).mpr (he.2 ▸ hk)
      rw [old, List.nil_append, List.filter_cons_of_neg (by simpa using hk), ← ih done]
      apply distinct_congr
      intro id
      rw [List.mem_append, or_iff_left_of_imp]
      intro hid
      obtain ⟨e, he, rfl⟩ := List.mem_map.mp hid
      rw [ofKind_eq, List.mem_filter, decide_eq_true_eq] at he
      exact (seen e he.1 done).mpr (he.2 ▸ hk)
    · have new : distinct ((done.flatMap fun k => catalog.ofKind (some k)).map (·.id))
          (catalog.ofKind (some k)) = catalog.ofKind (some k) := by
        apply distinct_of_new
        · exact h.nodup_ids.sublist (List.filter_sublist.map _)
        · intro e he
          rw [ofKind_eq, List.mem_filter, decide_eq_true_eq] at he
          rw [seen e he.1 done, he.2]
          exact hk
      have next := ih (done ++ [k])
      rw [List.flatMap_append, List.map_append, List.flatMap_singleton] at next
      rw [new, next, List.filter_cons_of_pos (by simpa using hk), List.eraseDups_cons,
        List.flatMap_cons, List.filter_filter]
      congr 3
      apply List.filter_congr
      intro k' _
      rw [Bool.eq_iff_iff]
      simp [and_comm]

/-- The candidates are the records that were requested. -/
theorem distinct_requests (h : catalog.InMemory) (filter : QueryFilter) :
    distinct [] ((requests filter).flatMap catalog.ofKind) = requested catalog filter := by
  have everything : distinct [] (catalog.all ++ []) = catalog.all := by
    rw [List.append_nil]
    exact distinct_of_new h.nodup_ids fun e _ => List.not_mem_nil
  unfold requests requested
  match filter.entityTypes with
  | none => exact everything
  | some [] => exact everything
  | some (k :: rest) =>
    have kinds := distinct_kinds h [] (k :: rest)
    simpa [List.flatMap_map, ofKind_eq] using kinds

section

variable {e : EntityRecord Float}

theorem passesTags_iff :
    passesTags filter e = true ↔
      ∀ wanted ∈ filter.tags, wanted ≠ [] → ∃ tag ∈ wanted, tag ∈ e.tags := by
  unfold passesTags
  split
  · next h => simp [h]
  · next h => simp [h]
  · next wanted filled h =>
    replace filled : wanted ≠ [] := filled
    simp [h, filled]

theorem passesPriority_iff :
    passesPriority filter e = true ↔
      (∀ range ∈ filter.priority, ∀ low ∈ range.min, ¬ e.priority < low) ∧
        ∀ range ∈ filter.priority, ∀ high ∈ range.max, ¬ high < e.priority := by
  unfold passesPriority
  split
  · next h => simp [h]
  · next range h => cases hl : range.min <;> cases hu : range.max <;> simp [h, hl, hu]

theorem passesLocation_iff :
    passesLocation filter e = true ↔
      ∀ wanted ∈ filter.location, ∀ place ∈ e.location,
        wanted ≠ "" → place ≠ "" → place = wanted := by
  unfold passesLocation
  split
  · next wanted place hw hp =>
    simp only [hw, hp, Option.mem_def, Option.some.injEq, forall_eq', Bool.or_eq_true,
      decide_eq_true_eq]
    tauto
  · next h =>
    simp only [Option.mem_def, true_iff]
    intro wanted hw place hp
    exact absurd hp (h wanted place hw)

theorem passesWindow_iff :
    passesWindow filter e = true ↔
      (∀ window ∈ filter.timeConstraints, ∀ start ∈ window.startTime, ∀ first ∈ e.availableFrom,
        start.instant ≤ first.instant) ∧
      ∀ window ∈ filter.timeConstraints, ∀ finish ∈ window.endTime, ∀ last ∈ e.availableUntil,
        last.instant ≤ finish.instant := by
  unfold passesWindow
  split
  · next h => simp [h]
  · next window h =>
    cases hs : window.startTime <;> cases he : window.endTime <;>
      cases hf : e.availableFrom <;> cases hu : e.availableUntil <;>
      simp [h, hs, he, and_comm]

theorem passesBounds_iff :
    passesBounds filter e = true ↔
      (∀ bounds ∈ filter.softBounds, ∀ bound ∈ bounds.playerAlignment,
        ∀ x ∈ e.playerAlignment, ¬ x < bound.min) ∧
      (∀ bounds ∈ filter.softBounds, ∀ bound ∈ bounds.storyRelevance,
        ∀ x ∈ e.storyRelevance, ¬ x < bound.min) ∧
      ∀ bounds ∈ filter.softBounds, ∀ bound ∈ bounds.difficultyMatch,
        ∀ x ∈ e.difficulty, ¬ bound.tolerance < (x - bound.target).abs := by
  unfold passesBounds
  split
  · next h => simp [h]
  · next bounds h =>
    cases ha : bounds.playerAlignment <;> cases hr : bounds.storyRelevance <;>
      cases hd : bounds.difficultyMatch <;> cases e.playerAlignment <;>
      cases e.storyRelevance <;> cases e.difficulty <;> simp [h, ha, hr, hd, and_assoc]

end

/-- Evaluating conditions changes no function. -/
theorem functions_holdAll (ctx : EvaluationContext) (cs : List Condition) (ev : Evaluator) :
    (holdAll ctx cs ev).2.functions = ev.functions := by
  induction cs generalizing ev with
  | nil => rfl
  | cons c rest ih =>
    rw [holdAll]
    dsimp only
    split
    · exact ih _
    · rfl

theorem holdAll_iff {ctx : EvaluationContext} {cs : List Condition} {ev : Evaluator}
    (steady : ∀ c ∈ cs, c.IsSteady ev.functions) :
    (holdAll ctx cs ev).1 = true ↔ ∀ c ∈ cs, c.Holds ev.functions ctx := by
  induction cs generalizing ev with
  | nil => simp [holdAll]
  | cons c rest ih =>
    have first : c.Holds ev.functions ctx ↔ (ev.evaluate ctx c).1.result = true :=
      Condition.holds_iff (steady c List.mem_cons_self) ev.source
    have others := @ih (ev.evaluate ctx c).2 fun d hd => steady d (List.mem_cons_of_mem _ hd)
    rw [holdAll, List.forall_mem_cons, first]
    dsimp only
    split
    · next h =>
      rw [others, and_iff_right h]
      rfl
    · next h =>
      simp only [Bool.false_eq_true, false_iff, not_and]
      exact fun h' => absurd h' h

open Classical in
theorem keepHolding_eq {cs : List Condition} {ev : Evaluator}
    (steady : ∀ c ∈ cs, c.IsSteady ev.functions) (es : List (EntityRecord Float)) :
    (keepHolding state cs es ev).1 =
      es.filter fun e => ∀ c ∈ cs, c.Holds ev.functions (contextOf state e) := by
  induction es generalizing ev with
  | nil => rfl
  | cons e rest ih =>
    have same := functions_holdAll (contextOf state e) cs ev
    have others := @ih (holdAll (contextOf state e) cs ev).2 (same ▸ steady)
    rw [same] at others
    rw [keepHolding]
    dsimp only
    rw [others]
    by_cases h : (holdAll (contextOf state e) cs ev).1 = true
    · rw [if_pos h, List.filter_cons_of_pos (by simpa using (holdAll_iff steady).mp h)]
    · rw [if_neg h, List.filter_cons_of_neg]
      simpa using fun hh => h ((holdAll_iff steady).mpr hh)

/-- A comparison says the same of every record, so it keeps all of them or none. -/
theorem keepHolding_simple {common : Condition.Common} {path operator : String} {value : Json}
    {op : Comparison} {b : Bool} (known : Vocabulary.ofName? operator = some op)
    (told : (state.view.resolve path).bind (·.compare op (.ofJson value)) = .ok b)
    (es : List (EntityRecord Float)) (ev : Evaluator) :
    (keepHolding state [.simple common path operator value] es ev).1 = if b then es else [] := by
  have each (x : EntityRecord Float) (ev : Evaluator) :
      (ev.evaluate (contextOf state x) (.simple common path operator value)).1.result = b := by
    change (Condition.evaluate _ (contextOf state x) _ _).result = b
    rw [Condition.evaluate, Condition.evaluateSimple, known]
    change (Outcome.ofCheck ((state.view.resolve path).bind _) _).result = b
    rw [told]
    rfl
  induction es generalizing ev with
  | nil => cases b <;> rfl
  | cons x rest ih =>
    rw [keepHolding, holdAll]
    dsimp only
    rw [each]
    cases b
    · exact ih _
    · exact congrArg (x :: ·) (ih _)

/-- An answer about factors is right for all names that are factors. -/
theorem factorsHold_eq_ok {e : EntityRecord Float} {names : List String} {b : Bool}
    (h : rules.factorsHold clock state e names = .ok b) :
    b = true ↔ ∀ name ∈ names, ∀ factor, Vocabulary.ofName? name = some factor →
      rules.factorHolds clock state e factor = .ok true := by
  induction names with
  | nil =>
    cases h
    simp
  | cons name rest ih =>
    rw [factorsHold] at h
    rw [List.forall_mem_cons]
    split at h
    · next unknown =>
      rw [ih h, unknown]
      simp
    · next factor known =>
      simp only [known, Option.some.injEq, forall_eq']
      split at h
      · cases h
      · next fails =>
        cases h
        simp [fails]
      · next holds => rw [ih h, and_iff_right holds]

open Classical in
theorem keepFitting_eq_ok {names : List String}
    (h : rules.keepFitting clock state names es = .ok kept) :
    kept = es.filter fun e => ∀ name ∈ names, ∀ factor, Vocabulary.ofName? name = some factor →
      rules.factorHolds clock state e factor = .ok true := by
  induction es generalizing kept with
  | nil =>
    cases h
    rfl
  | cons e rest ih =>
    rw [keepFitting] at h
    split at h
    · cases h
    · next holds hb =>
      obtain ⟨others, ho, rfl⟩ := map_eq_ok.mp h
      have first := factorsHold_eq_ok hb
      rw [ih ho]
      cases holds with
      | true =>
        rw [if_pos rfl, List.filter_cons_of_pos]
        simpa using first.mp rfl
      | false =>
        rw [if_neg Bool.false_ne_true, List.filter_cons_of_neg]
        simpa using fun hh => Bool.false_ne_true (first.mpr hh)

variable {graph : RelationshipGraph Float} {r : Relationship Float}

theorem fitsContext_iff :
    fitsContext state r = true ↔ ∀ tag ∈ r.metadata.context, tag ≠ "" → tag ∈ state.contextTags := by
  unfold fitsContext
  split
  · next h => simp [h]
  · next h => simp [h]
  · next tag filled h =>
    replace filled : tag ≠ "" := filled
    simp [h, filled]

theorem isRelevant_eq_ok {b : Bool} (h : rules.isRelevant state r = .ok b) :
    b = true ↔ Brings rules state r := by
  obtain ⟨weak, hw, rfl⟩ := map_eq_ok.mp h
  rw [Bool.and_eq_true, Bool.not_eq_true', fitsContext_iff]
  constructor
  · rintro ⟨rfl, fits⟩
    exact ⟨hw, fits⟩
  · rintro ⟨strong, fits⟩
    refine ⟨?_, fits⟩
    rw [hw] at strong
    cases strong
    rfl

open Classical in
/-- Relationships are followed once for each target: a target that was found counts as seen. -/
theorem discover_eq_ok {seen : List String} {edges : List (Relationship Float)}
    {found : List (EntityRecord Float)}
    (h : discover catalog (rules.isRelevant state) seen edges = .ok found) :
    found = ((edges.filter fun r => Brings rules state r ∧ r.target ∉ seen ∧
      (catalog.get? r.target).isSome).map (·.target)).eraseDups.filterMap catalog.get? := by
  induction edges generalizing seen found with
  | nil =>
    cases h
    rfl
  | cons r rest ih =>
    rw [discover] at h
    split at h
    · next hs =>
      rw [ih h, List.filter_cons_of_neg]
      simp [hs]
    · next hs =>
      split at h
      · cases h
      · next e hr he =>
        obtain ⟨others, ho, rfl⟩ := map_eq_ok.mp h
        have brings := (isRelevant_eq_ok hr).mp rfl
        rw [List.filter_cons_of_pos (by simp [brings, hs, he]), List.map_cons,
          List.eraseDups_cons, List.filterMap_cons_some he, ih ho, List.filter_map,
          List.filter_filter]
        congr 4
        apply List.filter_congr
        intro r' _
        rw [Bool.eq_iff_iff]
        simp
        tauto
      · next b hb unknown =>
        rw [ih h, List.filter_cons_of_neg]
        rw [decide_eq_true_eq]
        rintro ⟨brings, -, known⟩
        obtain ⟨e, he⟩ := Option.isSome_iff_exists.mp known
        have relevant := (isRelevant_eq_ok hb).mpr brings
        exact unknown e he relevant

theorem joined_eq_ok {options : QueryOptions} {listed : List (EntityRecord Float)}
    (h : rules.joined catalog graph filter state options listed = .ok es) :
    es = listed ++
      if options.includeRelated then broughtBy rules catalog graph filter state listed else [] := by
  unfold joined at h
  split at h
  · next wanted =>
    obtain ⟨others, ho, rfl⟩ := map_eq_ok.mp h
    rw [if_pos wanted, discover_eq_ok (mapError_eq_ok.mp ho)]
    unfold broughtBy
    congr 4
    apply List.filter_congr
    intro r _
    rw [decide_eq_decide, List.mem_append, not_or, and_assoc]
  · next unwanted =>
    cases h
    rw [if_neg unwanted, List.append_nil]

theorem scoreAll_eq_ok {scored : List Scored} (h : rules.scoreAll filter state es = .ok scored) :
    (∀ e ∈ es, rules.scoring.score filter state e = .ok (scoreOf rules filter state e)) ∧
      scored = es.map fun e => (e, scoreOf rules filter state e) := by
  replace h := mapError_eq_ok.mp h
  induction es generalizing scored with
  | nil =>
    cases h
    exact ⟨by simp, rfl⟩
  | cons e rest ih =>
    rw [List.mapM_cons] at h
    obtain ⟨first, hf, h⟩ := bind_eq_ok.mp h
    obtain ⟨others, ho, h⟩ := bind_eq_ok.mp h
    obtain ⟨score, hs, rfl⟩ := map_eq_ok.mp hf
    cases h
    obtain ⟨known, rfl⟩ := ih ho
    have same : scoreOf rules filter state e = score := by
      rw [scoreOf, hs]
      rfl
    rw [List.forall_mem_cons, List.map_cons, same]
    exact ⟨⟨hs, known⟩, rfl⟩

theorem inScoreRange_iff {score : Float} :
    inScoreRange filter score = true ↔ WithinRange filter score := by
  unfold inScoreRange WithinRange
  cases hb : filter.softBounds with
  | none => simp
  | some bounds => cases hr : bounds.recommendationScore <;> simp [hr]

theorem rank_eq_ok {options : QueryOptions} {r : QueryResult}
    (h : rules.rank filter state options es = .ok r) :
    ∃ scored limit, rules.scoreAll filter state es = .ok scored ∧
      rules.limit options = .ok limit ∧
      let arranged := sortBy options.sortBy (scored.filter fun x => inScoreRange filter x.2)
      r = { entities := (arranged.take limit).map (·.1), scores := (arranged.take limit).map (·.2)
            total := arranged.length, filtersApplied := filter.applied, sortedBy := options.sortBy
            contextFactors := contextNames state, cacheHit := false } := by
  obtain ⟨scored, hs, h⟩ := except_bind_eq_ok.mp h
  obtain ⟨limit, hl, h⟩ := map_eq_ok.mp h
  exact ⟨scored, limit, hs, hl, h.symm⟩

end QueryRules

end EntityRules
