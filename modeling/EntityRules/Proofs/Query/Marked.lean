import EntityRules.Proofs.Except
import EntityRules.Proofs.Members
import EntityRules.Proofs.Query.Sorting
import EntityRules.Query.Pipeline

/-! Naive times in a query. -/

namespace EntityRules

namespace Moment

/-- A moment without an offset. -/
def IsNaive (m : Moment) : Prop := m.offset = none

instance (m : Moment) : Decidable m.IsNaive := inferInstanceAs (Decidable (m.offset = none))

@[simp] theorem instant_asUtc (m : Moment) : m.asUtc.instant = m.instant := by
  unfold asUtc
  split
  · rfl
  · next h => simp [instant, wall, h]

@[simp] theorem seconds_asUtc (m : Moment) : m.asUtc.seconds = m.seconds := by
  simp [seconds]

theorem not_isNaive_asUtc (m : Moment) : ¬ m.asUtc.IsNaive := by
  unfold asUtc IsNaive
  split
  · next h => simp [h]
  · simp

/-- Moments of one sort are ordered by their instants. -/
theorem order?_eq (a b : Moment) :
    order? a b =
      if (a.IsNaive ↔ b.IsNaive) then some (compare a.instant b.instant) else none := by
  have naive : ∀ m : Moment, m.offset = none → m.instant = m.wall := by
    intro m h
    simp [instant, h]
  unfold order? IsNaive
  split
  · next ha hb => simp [ha, hb]
  · next ha hb => simp [naive a ha, naive b hb, ha, hb]
  · next aware other =>
    refine (if_neg fun same => ?_).symm
    by_cases ha : a.offset = none
    · exact other ha (same.mp ha)
    · obtain ⟨x, hx⟩ := Option.ne_none_iff_exists'.mp ha
      obtain ⟨y, hy⟩ := Option.ne_none_iff_exists'.mp (mt same.mpr ha)
      exact aware x y hx hy

end Moment

namespace GameState

/-- The later of two moments, the first one if they are the same instant. -/
def laterOf (best m : Moment) : Moment := if best.instant < m.instant then m else best

theorem later_eq (best m : Moment) :
    latest?.later best m =
      if (m.IsNaive ↔ best.IsNaive) then some (laterOf best m) else none := by
  rw [latest?.later, Moment.order?_eq]
  split
  · simp only [Option.map_some, laterOf, Int.compare_eq_gt]
  · rfl

/-- Moments of which some are naive and some are not. -/
def MixedTimes (ms : List Moment) : Prop := ∃ m ∈ ms, ∃ m' ∈ ms, m.IsNaive ∧ ¬ m'.IsNaive

instance (ms : List Moment) : Decidable (MixedTimes ms) :=
  inferInstanceAs (Decidable (∃ m ∈ ms, ∃ m' ∈ ms, _))

theorem mixedTimes_cons {m : Moment} {ms : List Moment} :
    MixedTimes (m :: ms) ↔ ∃ x ∈ ms, ¬ (x.IsNaive ↔ m.IsNaive) := by
  constructor
  · rintro ⟨x, hx, y, hy, naive, aware⟩
    rcases List.mem_cons.mp hx with rfl | hx
    · rcases List.mem_cons.mp hy with rfl | hy
      · exact absurd naive aware
      · exact ⟨y, hy, fun same => aware (same.mpr naive)⟩
    · by_cases hm : m.IsNaive
      · rcases List.mem_cons.mp hy with rfl | hy
        · exact absurd hm aware
        · exact ⟨y, hy, fun same => aware (same.mpr hm)⟩
      · exact ⟨x, hx, fun same => hm (same.mp naive)⟩
  · rintro ⟨x, hx, differ⟩
    by_cases hm : m.IsNaive
    · exact ⟨m, List.mem_cons_self, x, List.mem_cons_of_mem m hx, hm,
        fun naive => differ (iff_of_true naive hm)⟩
    · refine ⟨x, List.mem_cons_of_mem m hx, m, List.mem_cons_self, ?_, hm⟩
      by_contra aware
      exact differ (iff_of_false aware hm)

/-- The best moment stays of the sort that the first one was, so the first of another sort ends the
search. -/
theorem foldlM_later (best : Moment) (ms : List Moment) :
    ms.foldlM latest?.later best =
      if MixedTimes (best :: ms) then none else some (ms.foldl laterOf best) := by
  simp only [mixedTimes_cons]
  induction ms generalizing best with
  | nil => rfl
  | cons m rest ih =>
    rw [List.foldlM_cons, later_eq]
    by_cases same : m.IsNaive ↔ best.IsNaive
    · have sort : (laterOf best m).IsNaive ↔ best.IsNaive := by
        unfold laterOf
        split
        · exact same
        · rfl
      rw [if_pos same]
      refine (ih (laterOf best m)).trans ?_
      simp only [sort, List.mem_cons, exists_eq_or_imp, same, not_true, false_or, List.foldl_cons]
    · rw [if_neg same, if_pos ⟨m, List.mem_cons_self, same⟩]
      rfl

/-- The latest moment can be told just if naive moments do not stand among others. -/
theorem latest?_eq_none_iff (ms : List Moment) : latest? ms = none ↔ MixedTimes ms := by
  cases ms with
  | nil => simp [latest?, MixedTimes]
  | cons m rest =>
    rw [latest?, foldlM_later]
    split <;> simp [*]

theorem foldl_laterOf_asUtc (best : Moment) (ms : List Moment) :
    (ms.map Moment.asUtc).foldl laterOf best.asUtc = (ms.foldl laterOf best).asUtc := by
  induction ms generalizing best with
  | nil => rfl
  | cons m rest ih =>
    have first : laterOf best.asUtc m.asUtc = (laterOf best m).asUtc := by
      simp only [laterOf, Moment.instant_asUtc]
      split <;> rfl
    rw [List.map_cons, List.foldl_cons, List.foldl_cons, first, ih]

theorem not_mixedTimes_asUtc (ms : List Moment) : ¬ MixedTimes (ms.map Moment.asUtc) := by
  rintro ⟨m, hm, -, -, naive, -⟩
  obtain ⟨x, -, rfl⟩ := List.mem_map.mp hm
  exact Moment.not_isNaive_asUtc x naive

/-- Where the latest moment can be told, it is the latest one with all of them marked. -/
theorem latest?_asUtc {ms : List Moment} (h : ¬ MixedTimes ms) :
    latest? (ms.map Moment.asUtc) = (latest? ms).map (Option.map Moment.asUtc) := by
  have marked := not_mixedTimes_asUtc ms
  cases ms with
  | nil => rfl
  | cons m rest =>
    rw [List.map_cons] at marked ⊢
    rw [latest?, latest?, foldlM_later, foldlM_later, if_neg h, if_neg marked,
      foldl_laterOf_asUtc]
    rfl

end GameState

/-- A record with its naive times marked UTC. -/
def EntityRecord.marked {α : Type} (e : EntityRecord α) : EntityRecord α :=
  { e with
    timestamp := e.timestamp.map Moment.asUtc
    availableFrom := e.availableFrom.map Moment.asUtc
    availableUntil := e.availableUntil.map Moment.asUtc }

/-- A window with its naive times marked UTC. -/
def TimeConstraints.marked (t : TimeConstraints) : TimeConstraints :=
  ⟨t.startTime.map Moment.asUtc, t.endTime.map Moment.asUtc⟩

/-- A filter with the naive times of its window marked UTC. -/
def QueryFilter.marked (f : QueryFilter) : QueryFilter :=
  { f with timeConstraints := f.timeConstraints.map TimeConstraints.marked }

/-- An event with its time marked UTC if it is naive. -/
def RecentEvent.marked (e : RecentEvent) : RecentEvent :=
  { e with timestamp := e.timestamp.map Moment.asUtc }

namespace GameState

/-- A state with the naive times of its events marked UTC. -/
def marked (s : GameState) : GameState :=
  { s with recentEvents := s.recentEvents.map RecentEvent.marked }

/-- The times of recent events. -/
def times (s : GameState) : List Moment := s.recentEvents.filterMap (·.timestamp)

theorem times_marked (s : GameState) : s.marked.times = s.times.map Moment.asUtc := by
  unfold times marked
  rw [List.filterMap_map, List.map_filterMap]
  rfl

theorem lastEventTime?_marked {s : GameState} (h : ¬ MixedTimes s.times) :
    s.marked.lastEventTime? = s.lastEventTime?.map (Option.map Moment.asUtc) := by
  have marked := latest?_asUtc h
  rwa [← times_marked] at marked

end GameState

/-- A catalog with the naive times of its records marked UTC. -/
def EntityCatalog.marked (c : EntityCatalog) : EntityCatalog :=
  { c with records := c.records.map fun m => (m.1, m.2.marked) }

/-- A result with the naive times of its records marked UTC. -/
def QueryResult.marked (r : QueryResult) : QueryResult :=
  { r with entities := r.entities.map EntityRecord.marked }

theorem EntityCatalog.get?_marked (c : EntityCatalog) (id : String) :
    c.marked.get? id = (c.get? id).map EntityRecord.marked :=
  Members.get?_map c.records EntityRecord.marked id

theorem EntityCatalog.ofKind_marked (c : EntityCatalog) (kind : Option EntityKind) :
    c.marked.ofKind kind = (c.ofKind kind).map EntityRecord.marked := by
  have all : c.marked.records.map (·.2) = (c.records.map (·.2)).map EntityRecord.marked := by
    simp [marked]
  unfold ofKind
  rw [all]
  cases kind with
  | none => rfl
  | some k =>
    dsimp only
    rw [List.filter_map]
    rfl

namespace QueryRules

variable {rules : QueryRules} {clock : Int} {catalog : EntityCatalog}
  {graph : RelationshipGraph Float} {filter : QueryFilter} {state : GameState}
  {options : QueryOptions} {ev ev' : Evaluator}

theorem requests_marked (filter : QueryFilter) : requests filter.marked = requests filter := rfl

theorem distinct_marked (seen : List String) (es : List (EntityRecord Float)) :
    distinct seen (es.map EntityRecord.marked) = (distinct seen es).map EntityRecord.marked := by
  induction es generalizing seen with
  | nil => rfl
  | cons e rest ih =>
    have same : e.marked.id = e.id := rfl
    rw [List.map_cons, distinct, distinct, ih, ih, same]
    split <;> rfl

theorem passesWindow_marked (filter : QueryFilter) (e : EntityRecord Float) :
    passesWindow filter.marked e.marked = passesWindow filter e := by
  unfold passesWindow QueryFilter.marked EntityRecord.marked
  cases filter.timeConstraints with
  | none => rfl
  | some window =>
    obtain ⟨start, finish⟩ := window
    cases start <;> cases finish <;> cases e.availableFrom <;> cases e.availableUntil <;>
      simp [TimeConstraints.marked]

theorem filter_passesFilters_marked (filter : QueryFilter) (es : List (EntityRecord Float)) :
    (es.map EntityRecord.marked).filter (passesFilters filter.marked) =
      (es.filter (passesFilters filter)).map EntityRecord.marked := by
  rw [List.filter_map]
  congr 2
  funext e
  exact congrArg (_ && ·) (passesWindow_marked filter e)

theorem filter_passesBounds_marked (filter : QueryFilter) (es : List (EntityRecord Float)) :
    (es.map EntityRecord.marked).filter (passesBounds filter.marked) =
      (es.filter (passesBounds filter)).map EntityRecord.marked := by
  rw [List.filter_map]
  rfl

/-- Without conditions nothing is dropped for their sake. -/
theorem keepHolding_nil (state : GameState) (es : List (EntityRecord Float)) (ev : Evaluator) :
    (keepHolding state [] es ev).1 = es := by
  induction es with
  | nil => rfl
  | cons e rest ih => exact congrArg (e :: ·) ih

/-- A stage comes to what it comes to with all times marked, or it fails because naive times stand
among others, which some condition allows. -/
def Follows {α β : Type} (allows : Prop) (g : α → β) (o : Except PipelineTrouble α)
    (o' : Except PipelineTrouble β) : Prop :=
  (allows ∧ o = .error .mixedTimes) ∨ o.map g = o'

theorem Follows.mono {α β : Type} {allows allows' : Prop} {g : α → β}
    {o : Except PipelineTrouble α} {o' : Except PipelineTrouble β} (h : Follows allows g o o')
    (weaker : allows → allows') : Follows allows' g o o' :=
  h.imp_left (And.imp_left weaker)

theorem Follows.bind {α β γ δ : Type} {allows : Prop} {g : α → β} {k : γ → δ}
    {o : Except PipelineTrouble α} {o' : Except PipelineTrouble β}
    {f : α → Except PipelineTrouble γ} {f' : β → Except PipelineTrouble δ}
    (h : Follows allows g o o') (next : ∀ a, Follows allows k (f a) (f' (g a))) :
    Follows allows k (o.bind f) (o'.bind f') := by
  rcases h with ⟨allowed, rfl⟩ | rfl
  · exact .inl ⟨allowed, rfl⟩
  · cases o with
    | error why => exact .inr rfl
    | ok a => exact next a

/-- The factor that looks at the latest event fails where naive times stand among others. -/
theorem dramaticTiming_marked (e : EntityRecord Float) :
    Follows (GameState.MixedTimes state.times) id (rules.dramaticTiming clock state e)
      (rules.dramaticTiming clock state.marked e.marked) := by
  by_cases mixed : GameState.MixedTimes state.times
  · left
    refine ⟨mixed, ?_⟩
    unfold dramaticTiming
    rw [show state.lastEventTime? = none from (GameState.latest?_eq_none_iff _).mpr mixed]
  · right
    unfold dramaticTiming
    rw [GameState.lastEventTime?_marked mixed]
    cases state.lastEventTime? with
    | none => rfl
    | some last =>
      cases last with
      | none => rfl
      | some last =>
        simp only [Option.map_some, Moment.instant_asUtc]
        exact congrFun Except.map_id _

variable (rules clock state) in
theorem factorHolds_marked (e : EntityRecord Float) (factor : ContextFactor) :
    Follows (factor = .dramaticTiming ∧ GameState.MixedTimes state.times) id
      (rules.factorHolds clock state e factor)
      (rules.factorHolds clock state.marked e.marked factor) := by
  cases factor with
  | dramaticTiming => exact (dramaticTiming_marked e).mono fun mixed => ⟨rfl, mixed⟩
  | storyAppropriate => exact .inr rfl
  | playerReady => exact .inr rfl
  | resourceAvailable => exact .inr rfl

theorem factorsHold_cons {name : String} {factor : ContextFactor}
    (known : Vocabulary.ofName? name = some factor) (e : EntityRecord Float) (rest : List String) :
    rules.factorsHold clock state e (name :: rest) =
      (rules.factorHolds clock state e factor).bind fun holds =>
        if holds then rules.factorsHold clock state e rest else .ok false := by
  rw [factorsHold, known]
  dsimp only
  cases rules.factorHolds clock state e factor with
  | error why => rfl
  | ok holds => cases holds <;> rfl

theorem factorsHold_marked (e : EntityRecord Float) (names : List String) :
    Follows ("dramatic_timing" ∈ names ∧ GameState.MixedTimes state.times) id
      (rules.factorsHold clock state e names)
      (rules.factorsHold clock state.marked e.marked names) := by
  induction names with
  | nil => exact .inr rfl
  | cons name rest ih =>
    have later := ih.mono (And.imp_left (List.mem_cons_of_mem name))
    cases known : (Vocabulary.ofName? name : Option ContextFactor) with
    | none =>
      rw [factorsHold, factorsHold, known]
      exact later
    | some factor =>
      have named := Vocabulary.name_of_ofName? known
      have first := factorHolds_marked rules clock state e factor
      rw [factorsHold_cons known, factorsHold_cons known]
      refine (first.mono ?_).bind ?_
      · rintro ⟨rfl, mixed⟩
        exact ⟨named ▸ List.mem_cons_self, mixed⟩
      · rintro (holds | holds)
        · exact .inr rfl
        · exact later

theorem keepFitting_marked (names : List String) (es : List (EntityRecord Float)) :
    Follows ("dramatic_timing" ∈ names ∧ GameState.MixedTimes state.times)
      (List.map EntityRecord.marked) (rules.keepFitting clock state names es)
      (rules.keepFitting clock state.marked names (es.map EntityRecord.marked)) := by
  have step : ∀ (state : GameState) (e : EntityRecord Float) (rest : List (EntityRecord Float)),
      rules.keepFitting clock state names (e :: rest) =
        (rules.factorsHold clock state e names).bind fun holds =>
          (rules.keepFitting clock state names rest).bind fun kept =>
            .ok (if holds then e :: kept else kept) := by
    intro state e rest
    rw [keepFitting]
    cases rules.factorsHold clock state e names with
    | error why => rfl
    | ok holds => cases rules.keepFitting clock state names rest <;> rfl
  induction es with
  | nil => exact .inr rfl
  | cons e rest ih =>
    rw [List.map_cons, step, step]
    refine (factorsHold_marked e names).bind fun holds => ih.bind fun kept => .inr ?_
    cases holds <;> rfl

theorem discover_marked (relevant : Relationship Float → Except ExtentTrouble Bool)
    (seen : List String) (edges : List (Relationship Float)) :
    discover catalog.marked relevant seen edges =
      (discover catalog relevant seen edges).map (List.map EntityRecord.marked) := by
  induction edges generalizing seen with
  | nil => rfl
  | cons r rest ih =>
    rw [discover, discover]
    split
    · exact ih seen
    · rw [EntityCatalog.get?_marked, ih, ih]
      cases relevant r with
      | error why => rfl
      | ok matters =>
        cases catalog.get? r.target with
        | none => cases matters <;> rfl
        | some e =>
          cases matters with
          | false => rfl
          | true => cases discover catalog relevant (r.target :: seen) rest <;> rfl

theorem related_marked (found : List (EntityRecord Float)) :
    rules.related catalog.marked graph filter.marked state.marked (found.map EntityRecord.marked) =
      (rules.related catalog graph filter state found).map (List.map EntityRecord.marked) := by
  have ids : (found.map EntityRecord.marked).map (·.id) = found.map (·.id) := by
    rw [List.map_map]
    rfl
  have edges : (found.map EntityRecord.marked).flatMap (fun e => graph.outgoingOf e.id) =
      found.flatMap fun e => graph.outgoingOf e.id := by
    rw [List.flatMap_map]
    rfl
  unfold related
  rw [ids, edges]
  exact discover_marked _ _ _

theorem joined_marked (found : List (EntityRecord Float)) :
    rules.joined catalog.marked graph filter.marked state.marked options
        (found.map EntityRecord.marked) =
      (rules.joined catalog graph filter state options found).map
        (List.map EntityRecord.marked) := by
  unfold joined
  split
  · rw [related_marked]
    cases rules.related catalog graph filter state found with
    | error why => rfl
    | ok more => exact congrArg Except.ok List.map_append.symm
  · rfl

/-- A record with its naive times marked, and its score. -/
def Scored.marked (x : Scored) : Scored := (x.1.marked, x.2)

theorem scoreAll_marked (es : List (EntityRecord Float)) :
    rules.scoreAll filter.marked state.marked (es.map EntityRecord.marked) =
      (rules.scoreAll filter state es).map (List.map Scored.marked) := by
  have same : ∀ e : EntityRecord Float,
      rules.scoring.score filter.marked state.marked e.marked = rules.scoring.score filter state e :=
    fun _ => rfl
  have each : (es.map EntityRecord.marked).mapM (fun e =>
        (rules.scoring.score filter.marked state.marked e).map fun s => (e, s)) =
      (es.mapM fun e => (rules.scoring.score filter state e).map fun s => (e, s)).map
        (List.map Scored.marked) := by
    induction es with
    | nil => rfl
    | cons e rest ih =>
      rw [List.map_cons, List.mapM_cons, List.mapM_cons, ih, same]
      cases rules.scoring.score filter state e with
      | error why => rfl
      | ok s =>
        cases rest.mapM fun e => (rules.scoring.score filter state e).map fun s => (e, s) <;> rfl
  unfold scoreAll
  rw [each]
  cases es.mapM fun e => (rules.scoring.score filter state e).map fun s => (e, s) <;> rfl

theorem timeKey_marked (e : EntityRecord Float) : timeKey e.marked = timeKey e := by
  unfold timeKey EntityRecord.marked
  cases e.timestamp with
  | none => rfl
  | some m => exact m.seconds_asUtc

/-- Sorting by a key that does not change with marks. -/
theorem descending_marked {key : Scored → Float} (same : ∀ x : Scored, key x.marked = key x)
    (xs : List Scored) :
    descending key (xs.map Scored.marked) = (descending key xs).map Scored.marked := by
  have compare : ∀ a b : Scored, decide (key a.marked < key b.marked) = decide (key a < key b) := by
    intro a b
    rw [same, same]
  have unordered : (xs.map Scored.marked).any (fun x => (key x).isNaN) =
      xs.any fun x => (key x).isNaN := by
    rw [List.any_map]
    congr 1
    funext x
    exact congrArg Float.isNaN (same x)
  unfold descending
  rw [unordered]
  split
  · exact Order.sortDown_map compare xs
  · refine (List.map_mergeSort ?_).symm
    intro a _ b _
    exact congrArg (!·) (compare a b).symm

theorem sortBy_marked (name : String) (xs : List Scored) :
    sortBy name (xs.map Scored.marked) = (sortBy name xs).map Scored.marked := by
  unfold sortBy
  split
  · exact descending_marked (fun _ => rfl) xs
  · exact descending_marked (fun _ => rfl) xs
  · exact descending_marked (fun x => timeKey_marked x.1) xs
  · rfl

theorem applied_marked (filter : QueryFilter) : filter.marked.applied = filter.applied := by
  unfold QueryFilter.applied QueryFilter.set QueryFilter.marked
  rw [Option.isSome_map]

theorem rank_marked (es : List (EntityRecord Float)) :
    rules.rank filter.marked state.marked options (es.map EntityRecord.marked) =
      (rules.rank filter state options es).map QueryResult.marked := by
  unfold rank
  rw [scoreAll_marked, applied_marked]
  cases rules.scoreAll filter state es with
  | error why => rfl
  | ok scored =>
    have ranged : (scored.map Scored.marked).filter (fun x => inScoreRange filter.marked x.2) =
        (scored.filter fun x => inScoreRange filter x.2).map Scored.marked := by
      rw [List.filter_map]
      rfl
    simp only [Except.bind, Except.map, ranged, sortBy_marked]
    cases rules.limit options with
    | error why => rfl
    | ok limit =>
      have names : contextNames state.marked = contextNames state := rfl
      simp [QueryResult.marked, ← List.map_take, Scored.marked, Function.comp_def, names]

variable (rules clock catalog graph state options ev ev') in
/-- The answer to a query without conditions is the same when naive times are marked, apart from
the marks. The only exception is that it fails where dramatic timing is asked for and naive event
times stand among others. -/
theorem answer_marked (conditionless : filter.conditions.getD [] = [])
    (fetched : List (EntityRecord Float)) :
    Follows ("dramatic_timing" ∈ filter.contextFactors.getD [] ∧
        GameState.MixedTimes state.times) QueryResult.marked
      (rules.answer clock catalog graph filter state options fetched ev).1
      (rules.answer clock catalog.marked graph filter.marked state.marked options
        (fetched.map EntityRecord.marked) ev').1 := by
  have stages : ∀ (catalog : EntityCatalog) (filter : QueryFilter) (state : GameState)
      (fetched : List (EntityRecord Float)) (ev : Evaluator), filter.conditions.getD [] = [] →
      (rules.answer clock catalog graph filter state options fetched ev).1 =
        (rules.keepFitting clock state (filter.contextFactors.getD [])
            (fetched.filter (passesFilters filter))).bind fun es =>
          (rules.joined catalog graph filter state options (es.filter (passesBounds filter))).bind
            fun es => rules.rank filter state options es := by
    intro catalog filter state fetched ev none
    unfold answer
    rw [none]
    dsimp only
    rw [keepHolding_nil]
    cases rules.keepFitting clock state (filter.contextFactors.getD [])
        (fetched.filter (passesFilters filter)) with
    | error why => rfl
    | ok es =>
      dsimp only [Except.bind]
      cases rules.joined catalog graph filter state options (es.filter (passesBounds filter)) <;> rfl
  rw [stages catalog filter state fetched ev conditionless,
    stages catalog.marked filter.marked state.marked _ ev' conditionless,
    filter_passesFilters_marked]
  refine (keepFitting_marked _ _).bind fun es => .inr ?_
  rw [filter_passesBounds_marked, joined_marked]
  cases rules.joined catalog graph filter state options (es.filter (passesBounds filter)) with
  | error why => rfl
  | ok es => exact (rank_marked es).symm

end QueryRules

end EntityRules
