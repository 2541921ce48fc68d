import EntityRules.Proofs.Engine.Gates
import EntityRules.Proofs.Engine.Remembered
import EntityRules.Proofs.Engine.Silent
import EntityRules.Proofs.Query.Alike

/-! What the key of a request tells of its result. -/

namespace EntityRules

/-- A player whose numbers stand in another order is written alike. -/
theorem GameState.arranged_reordered (s : GameState) {stats : Members Float}
    (h : stats.Perm s.player.stats) (names : (Members.names stats).Nodup) :
    ({ s with player := { s.player with stats } } : GameState).encode.arranged =
      s.encode.arranged := by
  have numbers := Encode.mapping_reordered Json.float h names
  simp only [encode, view, PlayerState.view, Value.dump, Value.dumpMembers, Value.dump_ofMapping,
    Json.arranged, Json.arrangedMembers, numbers]

namespace Request

/-- A request whose conditions were read. -/
def IsRead (q : Request) : Prop := ∀ c ∈ q.filter.conditions.getD [], c.IsRead

/-- The texts that the conditions of a request look at in its state, each as a part and a whole. -/
def compared (q : Request) : List (Option (String × String)) :=
  (q.filter.conditions.getD []).flatMap (Condition.texts q.state)

variable {q q' : Request}

/-- The conditions of requests that are written alike say the same, one by one. -/
theorem Same.conditions (same : q.Same q') (read : q.IsRead) (read' : q'.IsRead)
    (compared : q.compared = q'.compared) :
    List.Forall₂ (Condition.Alike q.state q'.state) (q.filter.conditions.getD [])
      (q'.filter.conditions.getD []) := by
  have documents : (q.filter.conditions.getD []).map (fun c => c.encode.arranged) =
      (q'.filter.conditions.getD []).map fun c => c.encode.arranged := by
    have written := (QueryFilter.alike same.filter).conditions
    cases hq : q.filter.conditions <;> cases hq' : q'.filter.conditions <;>
      rw [hq, hq'] at written
    · cases written
    · cases written
    · exact Option.some.inj written
  have said := Condition.map_eq_map_of documents fun c hc c' hc' =>
    Condition.arranged_eq (read c hc) (read' c' hc')
  exact Condition.forall₂_alike said compared

end Request

namespace RuleEngine

variable {e e' : RuleEngine} {q q' : Request}

/-- Engines with the same rules, functions, records, nodes and edges. Their clocks, counts, random
sources and what they remember may differ. -/
structure Twins (e e' : RuleEngine) : Prop where
  rules : e'.rules = e.rules
  functions : e'.evaluator.functions = e.evaluator.functions
  catalog : e'.catalog = e.catalog
  outgoing : e'.graph.outgoing = e.graph.outgoing
  incoming : e'.graph.incoming = e.graph.incoming
  registered : e'.graph.registered = e.graph.registered

theorem Twins.sameEdges (h : Twins e e') : RelationshipGraph.SameEdges e.graph e'.graph :=
  ⟨by rw [h.outgoing], by rw [h.incoming], h.registered⟩

/-- Taking over a graph keeps the rules, the functions and the catalog. -/
theorem Twins.withGraph (h : Twins e e') {g g' : RelationshipGraph Float}
    (outgoing : g'.outgoing = g.outgoing) (incoming : g'.incoming = g.incoming)
    (registered : g'.registered = g.registered) : Twins (e.withGraph g) (e'.withGraph g') := by
  obtain ⟨rules, functions, catalog, -, -, -⟩ := h
  unfold RuleEngine.withGraph
  dsimp only
  split <;> split <;> exact ⟨rules, functions, catalog, outgoing, incoming, registered⟩

/-- Twins fetch the same records and stay twins, whenever each of them does it. -/
theorem Twins.fetchKind (h : Twins e e') (kind : Option EntityKind) (now now' : Moment) :
    (e'.fetchKind kind now').1 = (e.fetchKind kind now).1 ∧
      Twins (e.fetchKind kind now).2 (e'.fetchKind kind now').2 := by
  unfold RuleEngine.fetchKind
  rw [h.catalog]
  cases e.catalog.failure with
  | some message => exact ⟨rfl, h⟩
  | none =>
    dsimp only
    cases e.catalog.discoveries with
    | nil => exact ⟨rfl, h⟩
    | cons found rest =>
      refine ⟨rfl, Twins.withGraph ?_ ?_ ?_ h.registered⟩
      · exact ⟨h.rules, h.functions, rfl, h.outgoing, h.incoming, h.registered⟩
      · change Members.put _ _ _ = Members.put _ _ _
        rw [RelationshipGraph.outgoingOf, RelationshipGraph.outgoingOf, h.outgoing]
      · change Members.put _ _ _ = Members.put _ _ _
        rw [RelationshipGraph.incomingOf, RelationshipGraph.incomingOf, h.incoming]

theorem Twins.fetchKinds (h : Twins e e') (kinds : List (Option EntityKind)) (now now' : Moment) :
    (RuleEngine.fetchKinds now' kinds e').1 = (RuleEngine.fetchKinds now kinds e).1 ∧
      Twins (RuleEngine.fetchKinds now kinds e).2 (RuleEngine.fetchKinds now' kinds e').2 := by
  induction kinds generalizing e e' with
  | nil => exact ⟨rfl, h⟩
  | cons kind rest ih =>
    obtain ⟨records, twins⟩ := h.fetchKind kind now now'
    unfold RuleEngine.fetchKinds
    generalize e.fetchKind kind now = first at records twins ⊢
    generalize e'.fetchKind kind now' = first' at records twins ⊢
    obtain ⟨fetched, left⟩ := first
    obtain ⟨fetched', left'⟩ := first'
    obtain rfl : fetched' = fetched := records
    cases fetched' with
    | error why => exact ⟨rfl, twins⟩
    | ok es =>
      obtain ⟨others, still⟩ := ih twins
      exact ⟨congrArg (Except.map (es ++ ·)) others, still⟩

theorem Twins.fetch (h : Twins e e') (filter : QueryFilter) (now now' : Moment) :
    (e'.fetch filter now').1 = (e.fetch filter now).1 ∧
      Twins (e.fetch filter now).2 (e'.fetch filter now').2 := by
  obtain ⟨records, twins⟩ := h.fetchKinds (QueryRules.requests filter) now now'
  exact ⟨congrArg (Except.map (QueryRules.distinct [])) records, twins⟩

/-- The pipeline comes to the same for requests that are written alike and compare the same texts.
-/
theorem compute_alike (twins : Twins e e') (same : q.Same q') (read : q.IsRead) (read' : q'.IsRead)
    (compared : q.compared = q'.compared) (timeless : ¬ q'.UsesClock)
    (calls : ∀ c ∈ q.filter.conditions.getD [],
      c.CallsOnly (fun f => f.IsSteady ∧ f.IgnoresOrder) e.evaluator.functions)
    (steady' : ∀ c ∈ q'.filter.conditions.getD [], c.IsSteady e.evaluator.functions)
    (now now' : Moment) : e'.compute q' now' = e.compute q now := by
  have asked := QueryFilter.alike same.filter
  have options : q.options = q'.options := QueryOptions.faithful_encode same.options
  have fetching : e'.fetch q'.filter now' = e'.fetch q.filter now' := by
    rw [RuleEngine.fetch, RuleEngine.fetch, QueryRules.requests, QueryRules.requests,
      asked.entityTypes]
  have own := evaluator_fetch e q.filter now
  obtain ⟨records, still⟩ := twins.fetch q.filter now now'
  unfold compute runPipeline
  rw [fetching, ← options]
  generalize e.fetch q.filter now = left at records still own ⊢
  generalize e'.fetch q.filter now' = right at records still ⊢
  obtain ⟨fetched, here⟩ := left
  obtain ⟨fetched', there⟩ := right
  obtain rfl : fetched' = fetched := records
  cases fetched' with
  | error why => rfl
  | ok es =>
    dsimp only at still own ⊢
    rw [← own] at calls steady'
    calc (there.rules.query.answer there.clock there.catalog there.graph q'.filter q'.state
          q.options es there.evaluator).1
        = (here.rules.query.answer here.clock here.catalog here.graph q'.filter q'.state
          q.options es here.evaluator).1 := by
          rw [still.rules]
          exact QueryRules.answer_congr (by rw [still.catalog]) still.sameEdges
            (fun _ _ _ _ => by rw [still.functions]) steady' timeless _ es
      _ = (here.rules.query.answer here.clock here.catalog here.graph q.filter q.state
          q.options es here.evaluator).1 :=
          QueryRules.answer_alike asked (GameState.arranged_eq same.state) calls steady'
            (same.conditions read read' compared) es

end RuleEngine

namespace RuleEngine.Sample

/-- A state of which the numbers of the player stand in an order. -/
def statsIn (stats : Members Float) : GameState := { player := { stats } }

/-- One condition, for a player with two numbers in one order or in the other. -/
def firstAsk (c : Condition) : Request :=
  { filter := { conditions := some [c] }, state := statsIn [("hp", 1), ("mp", 2)]
    options := { sortBy := "found" } }

def secondAsk (c : Condition) : Request :=
  { firstAsk c with state := statsIn [("mp", 2), ("hp", 1)] }

/-- A condition on one of the numbers. -/
def healthy : Condition := .simple ⟨none, none, none, []⟩ "player.stats.hp" "greater_than" (.int 0)

/-- A condition on the text of the player. -/
def ordered : Condition :=
  .simple ⟨none, none, none, []⟩ "player" "contains" (.str "'hp': 1.0, 'mp'")

/-- The market at another time. -/
def later : RuleEngine := { shop with clock := 60, time := 60 }

theorem twins_later : Twins shop later := ⟨rfl, rfl, rfl, rfl, rfl, rfl⟩

theorem keyOf_asks (c : Condition) : shop.keyOf (firstAsk c) = shop.keyOf (secondAsk c) := by
  have same : (statsIn [("mp", 2), ("hp", 1)]).encode.canonical =
      (statsIn [("hp", 1), ("mp", 2)]).encode.canonical :=
    Json.canonical_eq_iff.mpr
      (GameState.arranged_reordered (statsIn [("hp", 1), ("mp", 2)]) (.swap _ _ _) (by decide))
  unfold keyOf secondAsk
  rw [same]
  rfl

theorem isRead_asks {c : Condition} (read : c.IsRead) :
    (firstAsk c).IsRead ∧ (secondAsk c).IsRead := by
  have each : ∀ d ∈ [c], d.IsRead := by
    intro d hd
    obtain rfl := List.mem_singleton.mp hd
    exact read
  exact ⟨each, each⟩

/-- What the player is written as decides for all records at once. -/
theorem compute_ordered (stats : Members Float) (b : Bool)
    (told : ((statsIn stats).view.resolve "player" |>.bind
      (·.compare .contains (.ofJson (.str "'hp': 1.0, 'mp'")))).toOption = some b) :
    shop.compute (.holding [ordered] (statsIn stats) { sortBy := "found" }) QueryRules.Sample.noon =
      shop.rules.query.rank { conditions := some [ordered] } (statsIn stats) { sortBy := "found" }
        (if b then shop.catalog.all else []) := by
  have known : Vocabulary.ofName? "contains" = some Comparison.contains := by decide
  refine compute_simple (EntityCatalog.inMemory_ofList _) rfl known ?_ _
  cases h : (statsIn stats).view.resolve "player" |>.bind
    (·.compare .contains (.ofJson (.str "'hp': 1.0, 'mp'"))) with
  | error why =>
    rw [h] at told
    cases told
  | ok found =>
    rw [h] at told
    exact congrArg Except.ok (Option.some.inj told)

end RuleEngine.Sample

open RuleEngine.Sample QueryRules.Sample

end EntityRules
