import Mathlib
import EntityRules.Proofs.Graph.Components
import EntityRules.Proofs.Graph.Snapshot

/-! The measures of a graph. -/

namespace EntityRules

instance : Scalar ℚ where
  lt a b := decide (a < b)
  le a b := decide (a ≤ b)
  ratio? n d := some (n / d)
  power? x n := some (x ^ n)

namespace Scalar

@[simp] theorem lt_rat (a b : ℚ) : Scalar.lt a b = decide (a < b) := rfl

theorem sum_rat (xs : List ℚ) : Scalar.sum xs = xs.sum := by
  rw [List.sum_eq_foldl]
  rfl

@[simp] theorem count_rat (n : ℕ) : (Scalar.count n : ℚ) = n := by
  rw [Scalar.count, sum_rat, List.sum_replicate]
  exact nsmul_one n

end Scalar

end EntityRules

namespace EntityRules.RelationshipGraph

open Members

variable {α : Type} {g : RelationshipGraph α}

theorem nodup_nodes (g : RelationshipGraph α) : g.nodes.Nodup := nodup_eraseDups _

theorem Coherent.mem_nodes_iff (h : Coherent g) {id : String} : id ∈ g.nodes ↔
    (∃ r ∈ g.edges, r.source = id) ∨ (∃ r ∈ g.edges, r.target = id) ∨ id ∈ g.registered := by
  rw [← mem_mentioned, ← toFinset_nodes h.bySource, List.mem_toFinset]

/-- An edge counts at both its ends, and twice at its node if it is a loop. -/
theorem Coherent.connections_eq (h : Coherent g) (id : String) : g.connections id =
    g.edges.countP (·.source = id) + g.edges.countP (·.target = id) := by
  have out : (g.edges.filter (·.source = id)) = g.outgoingOf id := h.bySource.filter_edgesOf id
  rw [connections, (incomingOf_perm h id).length_eq, List.countP_eq_length_filter,
    List.countP_eq_length_filter, out]

/-- Edges that all have a certain end among the nodes have it as often as there are edges. -/
theorem sum_countP {nodes : List String} (distinct : nodes.Nodup) {f : Relationship α → String}
    {edges : List (Relationship α)} (known : ∀ r ∈ edges, f r ∈ nodes) :
    (nodes.map fun id => edges.countP (f · = id)).sum = edges.length := by
  have each : ∀ id, edges.countP (f · = id) = (edges.map f : Multiset String).count id := by
    intro id
    rw [Multiset.coe_count, List.count_eq_countP, List.countP_map]
    rfl
  simp only [each]
  rw [← List.sum_toFinset _ distinct, Multiset.sum_count_eq_card, Multiset.coe_card,
    List.length_map]
  intro id hid
  obtain ⟨r, hr, rfl⟩ := List.mem_map.mp (Multiset.mem_coe.mp hid)
  exact List.mem_toFinset.mpr (known r hr)

theorem Coherent.sum_connections (h : Coherent g) :
    (g.nodes.map g.connections).sum = 2 * g.edges.length := by
  have sources : ∀ r ∈ g.edges, r.source ∈ g.nodes :=
    fun r hr => h.mem_nodes_iff.mpr (.inl ⟨r, hr, rfl⟩)
  have targets : ∀ r ∈ g.edges, r.target ∈ g.nodes :=
    fun r hr => h.mem_nodes_iff.mpr (.inr (.inl ⟨r, hr, rfl⟩))
  rw [funext h.connections_eq, List.sum_map_add, sum_countP g.nodup_nodes sources,
    sum_countP g.nodup_nodes targets, two_mul]

/-- Whether some edge starts or ends at an entity. -/
def touches (g : RelationshipGraph α) (id : String) : Bool :=
  g.edges.any fun r => r.source = id || r.target = id

theorem Coherent.connections_eq_zero_iff (h : Coherent g) (id : String) :
    g.connections id = 0 ↔ g.touches id = false := by
  rw [h.connections_eq, Nat.add_eq_zero_iff, List.countP_eq_zero, List.countP_eq_zero, touches,
    List.any_eq_false]
  simp only [decide_eq_true_eq, Bool.or_eq_true, not_or, forall_and]

/-- The nodes without edges are those that are registered and that no edge touches. -/
theorem Coherent.isolated_eq (h : Coherent g) :
    (g.nodes.filter fun id => g.connections id = 0) =
      g.nodes.filter fun id => g.registered.contains id && !g.touches id := by
  refine List.filter_congr fun id hid => ?_
  rw [Bool.eq_iff_iff, decide_eq_true_eq, h.connections_eq_zero_iff, Bool.and_eq_true,
    Bool.not_eq_true', List.contains_iff_mem]
  constructor
  · intro alone
    have none : ∀ r ∈ g.edges, r.source ≠ id ∧ r.target ≠ id := by
      simpa [touches] using alone
    rcases h.mem_nodes_iff.mp hid with ⟨r, hr, same⟩ | ⟨r, hr, same⟩ | registered
    · exact absurd same (none r hr).1
    · exact absurd same (none r hr).2
    · exact ⟨registered, alone⟩
  · exact And.right

/-- Chosen nodes with their connections, the one with the most first; nodes with equally many stand
in the order of the graph. -/
structure Ranked (g : RelationshipGraph α) (chosen : String → Bool) (hubs : List Hub) : Prop where
  counted : ∀ h ∈ hubs, h.connections = g.connections h.id
  perm : (hubs.map (·.id)).Perm (g.nodes.filter chosen)
  sorted : hubs.Pairwise fun a b => b.connections ≤ a.connections
  stable : ∀ v w, chosen v → chosen w → [v, w].Sublist g.nodes →
    g.connections w ≤ g.connections v → [v, w].Sublist (hubs.map (·.id))

theorem Ranked.mem_iff {chosen : String → Bool} {hubs : List Hub} (h : Ranked g chosen hubs)
    {id : String} : id ∈ hubs.map (·.id) ↔ id ∈ g.nodes ∧ chosen id :=
  h.perm.mem_iff.trans List.mem_filter

theorem checked_of_isText {m : GraphMetrics α}
    (hubs : ∀ h ∈ m.hubs, NodeName.isText h.id = true)
    (isolated : ∀ id ∈ m.isolated, NodeName.isText id = true) : checked m = .ok m := by
  unfold checked
  rw [if_neg, faults_of_isText isolated]
  simpa using hubs

section

variable [Scalar α]

theorem ranked_hubsAbove (g : RelationshipGraph α) (threshold : α) :
    Ranked g (fun id => Scalar.lt threshold (Scalar.count (g.connections id)))
      (g.hubsAbove threshold) := by
  let hub : String → Hub := fun id => { id, connections := g.connections id }
  have trans : ∀ a b c : Hub, decide (b.connections ≤ a.connections) = true →
      decide (c.connections ≤ b.connections) = true →
      decide (c.connections ≤ a.connections) = true := by
    intro a b c hab hbc
    rw [decide_eq_true_eq] at *
    exact hbc.trans hab
  have total : ∀ a b : Hub, (decide (b.connections ≤ a.connections) ||
      decide (a.connections ≤ b.connections)) = true := by
    intro a b
    simpa using Nat.le_total b.connections a.connections
  have candidates : ((g.nodes.map hub).filter fun h =>
      Scalar.lt threshold (Scalar.count h.connections)) =
      (g.nodes.filter fun id => Scalar.lt threshold (Scalar.count (g.connections id))).map hub := by
    rw [List.filter_map]
    rfl
  have named : ∀ ids : List String, (ids.map hub).map (·.id) = ids := by
    intro ids
    rw [List.map_map]
    exact List.map_id ids
  rw [hubsAbove, candidates]
  constructor
  · intro h hh
    obtain ⟨id, -, rfl⟩ := List.mem_map.mp (List.mem_mergeSort.mp hh)
    rfl
  · exact ((List.mergeSort_perm _ _).map _).trans (.of_eq (named _))
  · exact (List.pairwise_mergeSort trans total _).imp of_decide_eq_true
  · intro v w hv hw ordered fewer
    have kept : [v, w].Sublist (g.nodes.filter fun id =>
        Scalar.lt threshold (Scalar.count (g.connections id))) := by
      simpa [hv, hw] using ordered.filter fun id =>
        Scalar.lt threshold (Scalar.count (g.connections id))
    exact (List.pair_sublist_mergeSort (a := hub v) (b := hub w) trans total
      (decide_eq_true fewer) (kept.map hub)).map (·.id)

theorem hubs_eq {factor : α} (numeric : g.options.hubFactor.scalar = .ok factor) :
    g.hubs = .ok (g.hubsAbove (g.averageConnectivity * factor)) := by
  unfold hubs
  split
  · next empty => simp [hubsAbove, List.isEmpty_iff.mp empty]
  · rw [numeric]
    rfl

/-- What the measures of a graph say when hubs have to exceed the average by a factor. -/
structure Measured (g : RelationshipGraph α) (factor : α) (m : GraphMetrics α) : Prop where
  nodes : m.nodes = g.nodes.length
  edges : m.edges = g.edges.length
  totalNodes : (m.nodes : ℤ) = g.metadata.totalNodes
  totalEdges : (m.edges : ℤ) = g.metadata.totalEdges
  average : m.averageConnectivity =
    if m.nodes = 0 then 0 else Scalar.count m.edges / Scalar.count m.nodes
  connections : ∀ id, g.connections id =
    g.edges.countP (·.source = id) + g.edges.countP (·.target = id)
  sum_connections : (g.nodes.map g.connections).sum = 2 * m.edges
  isolated : m.isolated = g.nodes.filter fun id => g.registered.contains id && !g.touches id
  hubs : Ranked g (fun id =>
    Scalar.lt (m.averageConnectivity * factor) (Scalar.count (g.connections id))) m.hubs

theorem Coherent.measured (h : Coherent g) (factor : α) :
    Measured g factor (g.measured (g.hubsAbove (g.averageConnectivity * factor))) where
  nodes := rfl
  edges := rfl
  totalNodes := h.totalNodes.symm
  totalEdges := h.totalEdges.symm
  average := by simp [RelationshipGraph.measured, averageConnectivity, List.length_eq_zero_iff]
  connections := h.connections_eq
  sum_connections := h.sum_connections
  isolated := h.isolated_eq
  hubs := ranked_hubsAbove g (g.averageConnectivity * factor)

/-- The measures are told if all nodes are named by texts. -/
theorem Reachable.measured (h : Reachable g) {factor : α}
    (numeric : g.options.hubFactor.scalar = .ok factor) :
    (∀ m, g.metrics = .ok m → Measured g factor m) ∧
      ((∀ id ∈ g.nodes, NodeName.isText id = true) → ∃ m, g.metrics = .ok m) := by
  have measured := (coherent_reachable h).measured factor
  have told : g.metrics =
      checked (g.measured (g.hubsAbove (g.averageConnectivity * factor))) := by
    rw [metrics, hubs_eq numeric]
  rw [told]
  constructor
  · intro m checks
    exact checked_eq_ok checks ▸ measured
  · intro texts
    refine ⟨_, checked_of_isText ?_ ?_⟩
    · intro hub hh
      exact texts _ (measured.hubs.mem_iff.mp (List.mem_map_of_mem hh)).1
    · intro id hid
      exact texts id (List.mem_filter.mp hid).1

end

/-- Not all nodes have more connections than twice the average. -/
theorem Coherent.exists_not_above {g : RelationshipGraph ℚ} (h : Coherent g)
    (filled : g.nodes ≠ []) {factor : ℚ} (two : 2 ≤ factor) :
    ∃ id ∈ g.nodes, (g.connections id : ℚ) ≤ g.edges.length / g.nodes.length * factor := by
  apply List.exists_le_of_sum_le filled
  have total : (g.nodes.map fun id => (g.connections id : ℚ)).sum = 2 * g.edges.length := by
    have cast := congrArg (Nat.cast (R := ℚ)) h.sum_connections
    rw [Nat.cast_list_sum, List.map_map] at cast
    exact_mod_cast cast
  have nodes : (g.nodes.length : ℚ) ≠ 0 := by simpa using filled
  rw [total, List.map_const', List.sum_replicate, nsmul_eq_mul, ← mul_assoc,
    mul_div_cancel₀ _ nodes, mul_comm]
  exact mul_le_mul_of_nonneg_left two (Nat.cast_nonneg _)

/-- What the measures of a graph say over exact fractions. -/
structure Exact (g : RelationshipGraph ℚ) (factor : ℚ) (m : GraphMetrics ℚ) : Prop where
  average : m.averageConnectivity = m.edges / m.nodes
  isHub_iff : ∀ id, id ∈ m.hubs.map (·.id) ↔
    id ∈ g.nodes ∧ m.averageConnectivity * factor < g.connections id
  isolated_not_hub : 0 ≤ factor → ∀ id ∈ m.isolated, id ∉ m.hubs.map (·.id)
  exists_not_hub : 2 ≤ factor → g.nodes ≠ [] → ∃ id ∈ g.nodes, id ∉ m.hubs.map (·.id)

theorem Coherent.exact {g : RelationshipGraph ℚ} (h : Coherent g) {factor : ℚ}
    {m : GraphMetrics ℚ} (measured : Measured g factor m) : Exact g factor m := by
  have average : m.averageConnectivity = m.edges / m.nodes := by
    rw [measured.average]
    split
    · next empty => simp [empty]
    · rw [Scalar.count_rat, Scalar.count_rat]
  have isHub_iff : ∀ id, id ∈ m.hubs.map (·.id) ↔
      id ∈ g.nodes ∧ m.averageConnectivity * factor < g.connections id := by
    intro id
    rw [measured.hubs.mem_iff, Scalar.lt_rat, Scalar.count_rat, decide_eq_true_eq]
  refine ⟨average, isHub_iff, ?_, ?_⟩
  · intro least id alone hub
    rw [measured.isolated, ← h.isolated_eq] at alone
    have none : g.connections id = 0 := of_decide_eq_true (List.mem_filter.mp alone).2
    have threshold : 0 ≤ m.averageConnectivity * factor :=
      mul_nonneg (average ▸ div_nonneg (Nat.cast_nonneg _) (Nat.cast_nonneg _)) least
    have above := ((isHub_iff id).mp hub).2
    rw [none, Nat.cast_zero] at above
    exact absurd above (not_lt.mpr threshold)
  · intro two filled
    obtain ⟨id, node, few⟩ := h.exists_not_above filled two
    rw [← measured.edges, ← measured.nodes, ← average] at few
    exact ⟨id, node, fun hub => absurd ((isHub_iff id).mp hub).2 (not_lt.mpr few)⟩

/-- Whatever steps led to a graph and whatever number makes a hub, the measures are those of its
edges and registered entities, and they are told if all nodes are named by texts. Over exact
fractions they also tell that entities without edges are no hubs, and that not all nodes are hubs if
these have to exceed twice the average. -/
theorem metrics_measured :
    (∀ (α : Type) [Scalar α] (g : RelationshipGraph α) (factor : α), Reachable g →
      g.options.hubFactor.scalar = .ok factor →
      (∀ m, g.metrics = .ok m → Measured g factor m) ∧
        ((∀ id ∈ g.nodes, NodeName.isText id = true) → ∃ m, g.metrics = .ok m)) ∧
    ∀ (g : RelationshipGraph ℚ) (factor : ℚ), Reachable g →
      g.options.hubFactor.scalar = .ok factor → ∀ m, g.metrics = .ok m → Exact g factor m :=
  ⟨fun _ _ _ _ h numeric => h.measured numeric, fun _ _ h numeric m found =>
    (coherent_reachable h).exact ((h.measured numeric).1 m found)⟩

namespace Sample

def link (source target : String) : Relationship ℚ :=
  { id := "", source, target, type := .synergy, strength := 1, bidirectional := false
    conditions := none, metadata := .fresh noon none }

def twofold : GraphOptions ℚ :=
  { strengthDecay := .whole 1, indirectDepth := .whole 3, pathHops := .whole 6
    hubFactor := .whole 2, cacheCapacity := .whole 8 }

/-- Two entities that each lead to the same two others, one of them to itself as well, and three
entities alone. -/
def stars : List (GraphStep ℚ) :=
  [.register "p" noon, .add (link "a" "b") noon, .add (link "a" "c") noon,
    .add (link "d" "b") noon, .add (link "d" "c") noon, .add (link "d" "d") noon,
    .register "q" noon, .register "r" noon]

end Sample

/-- Among seven nodes with five edges all four that have edges are hubs, the two with equally many
in the order in which they came. -/
theorem metrics_measured_stars : ∃ g : RelationshipGraph ℚ, ∃ m, Reachable g ∧
    g.options.hubFactor.scalar = .ok (2 : ℚ) ∧ (∀ id ∈ g.nodes, NodeName.isText id = true) ∧
    g.metrics = .ok m ∧ Measured g 2 m ∧ Exact g 2 m ∧ m.isolated = ["p", "q", "r"] ∧
    m.hubs.map (fun h => (h.id, h.connections)) = [("d", 4), ("a", 2), ("b", 2), ("c", 2)] := by
  obtain ⟨e, made⟩ : ∃ e, create Sample.twofold Sample.noon = .ok e := ⟨_, rfl⟩
  have reached := Reachable.run Sample.stars (.created made)
  have numeric : (Sample.stars.foldl GraphStep.apply e).options.hubFactor.scalar =
      .ok (2 : ℚ) := by
    cases made
    decide +kernel
  have texts : ∀ id ∈ (Sample.stars.foldl GraphStep.apply e).nodes,
      NodeName.isText id = true := by
    cases made
    decide +kernel
  have said : (Sample.stars.foldl GraphStep.apply e).metrics.toOption.map (fun m =>
      (m.isolated, m.hubs.map fun h => (h.id, h.connections))) =
      some (["p", "q", "r"], [("d", 4), ("a", 2), ("b", 2), ("c", 2)]) := by
    cases made
    cbv
  obtain ⟨right, told⟩ := metrics_measured.1 ℚ _ 2 reached numeric
  obtain ⟨m, found⟩ := told texts
  rw [found] at said
  obtain ⟨isolated, hubs⟩ := Prod.mk.inj (Option.some.inj said)
  have exact := metrics_measured.2 _ 2 reached numeric m found
  exact ⟨_, m, reached, numeric, texts, found, right m found, exact, isolated, hubs⟩

end EntityRules.RelationshipGraph
