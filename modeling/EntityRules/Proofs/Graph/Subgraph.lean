import EntityRules.Proofs.Digraph.Balls
import EntityRules.Proofs.Graph.Links

/-! What a subgraph shows of the surroundings of an entity. -/

namespace EntityRules.RelationshipGraph

open EntityRules.Digraph (IsWay Within EndsTrail Spread)
open Members

variable {α : Type} {g : RelationshipGraph α} {center u v : String}

/-- Some stored edge joins the two entities, in either direction. -/
def Adjacent (g : RelationshipGraph α) (u v : String) : Prop := g.Leads u v ∨ g.Leads v u

/-- A snapshot shows some entities: those that are joined to others are listed with their edges,
their own and the inverted ones of the others. -/
structure Shows (g : RelationshipGraph α) (s : GraphSnapshot α) (found : List String) : Prop where
  nodup : found.Nodup
  distinct : (names s.relationships).Nodup
  keys : ∀ id, id ∈ names s.relationships ↔ id ∈ found ∧ ∃ v, g.Adjacent id v
  edges : ∀ m ∈ s.relationships,
    m.2 = (g.relationshipsOf m.1 true).filter (!·.isSelfReference)
  totalNodes : s.metadata.totalNodes = found.length
  totalEdges : s.metadata.totalEdges = (edgesOf s.relationships).length

theorem mem_incomingOf (h : Coherent g) {r : Relationship α} :
    r ∈ g.incomingOf u ↔ r ∈ g.edges ∧ r.target = u := by
  rw [(incomingOf_perm h u).mem_iff, List.mem_filter, decide_eq_true_eq]

/-- The edges around an entity are those that leave it and, inverted, those that come to it. -/
theorem mem_surrounding (h : Coherent g) {r : Relationship α} :
    r ∈ g.surrounding u ↔
      r ∈ g.departing u ∨ ∃ e ∈ g.edges, e.target = u ∧ e.source ≠ u ∧ e.inverted = r := by
  rw [surrounding, relationshipsOf, if_pos rfl, List.filter_append, List.mem_append]
  refine or_congr Iff.rfl ?_
  simp only [List.mem_filter, List.mem_map, mem_incomingOf h]
  constructor
  · rintro ⟨⟨e, ⟨⟨he, rfl⟩, other⟩, rfl⟩, -⟩
    exact ⟨e, he, rfl, by simpa [Relationship.isSelfReference] using other, rfl⟩
  · rintro ⟨e, he, rfl, other, rfl⟩
    refine ⟨⟨e, ⟨⟨he, rfl⟩, ?_⟩, rfl⟩, ?_⟩
    · simpa [Relationship.isSelfReference] using other
    · simp [Relationship.isSelfReference, Ne.symm other]

theorem leads_neighbourhood (h : Coherent g) : g.neighbourhood.Leads = g.Adjacent := by
  funext u v
  refine propext (List.mem_map.trans ?_)
  simp only [mem_surrounding h, Adjacent, leads_iff h, or_and_right, exists_or]
  refine or_congr Iff.rfl ?_
  simp only [mem_departing h]
  constructor
  · rintro ⟨r, ⟨e, he, target, other, rfl⟩, rfl⟩
    exact ⟨e, ⟨he, rfl, target ▸ other⟩, target⟩
  · rintro ⟨e, ⟨he, rfl, other⟩, target⟩
    exact ⟨e.inverted, ⟨e, he, target, target ▸ other, rfl⟩, rfl⟩

theorem exists_adjacent_iff (h : Coherent g) : (∃ v, g.Adjacent u v) ↔ g.surrounding u ≠ [] := by
  rw [← leads_neighbourhood h]
  constructor
  · rintro ⟨v, edge⟩
    obtain ⟨r, hr, -⟩ := List.mem_map.mp edge
    exact List.ne_nil_of_mem hr
  · intro some_
    obtain ⟨r, hr⟩ := List.exists_mem_of_ne_nil _ some_
    exact ⟨r.target, List.mem_map_of_mem hr⟩

theorem closed_neighbourhood (h : Coherent g) : g.neighbourhood.Closed := by
  intro u v edge
  rw [leads_neighbourhood h] at edge
  refine (mem_nodes h).mpr ?_
  rcases edge with edge | edge
  · exact Reaches.has_last h (.single edge) edge.1
  · exact Reaches.has_first h (.single edge) edge.1

variable {found : List String}

/-- The entities of some that have edges, with these. -/
def shown (g : RelationshipGraph α) (found : List String) : Members (List (Relationship α)) :=
  found.filterMap fun id =>
    if (g.surrounding id).isEmpty then none else some (id, g.surrounding id)

theorem names_shown (g : RelationshipGraph α) (found : List String) :
    names (g.shown found) = found.filter fun id => !(g.surrounding id).isEmpty := by
  rw [names, shown, List.map_filterMap, ← List.filterMap_eq_filter]
  refine congrArg (List.filterMap · found) (funext fun id => ?_)
  cases empty : (g.surrounding id).isEmpty <;> simp [Option.guard, empty]

theorem mem_shown {m : String × List (Relationship α)} (hm : m ∈ g.shown found) :
    m.2 = g.surrounding m.1 := by
  obtain ⟨id, -, listed⟩ := List.mem_filterMap.mp hm
  split at listed
  · cases listed
  · obtain rfl := Option.some.inj listed
    rfl

theorem shows_of_nodup {s : GraphSnapshot α} (h : Coherent g) (nodup : found.Nodup)
    (relationships : s.relationships = g.shown found)
    (totalNodes : s.metadata.totalNodes = found.length)
    (totalEdges : s.metadata.totalEdges = (edgesOf s.relationships).length) :
    g.Shows s found where
  nodup := nodup
  distinct := by
    rw [relationships, names_shown]
    exact nodup.filter _
  keys id := by
    rw [relationships, names_shown, exists_adjacent_iff h]
    simp
  edges m hm := mem_shown (relationships ▸ hm)
  totalNodes := totalNodes
  totalEdges := totalEdges

/-- What a subgraph shows are the entities that a tour enters, and nothing when the center is
unknown. The last two parts tell when these are all that lie within the depth: when no nearer entity
ends a way of just so many hops without repetition, and so for a depth of one hop at most and for
one that is as great as the graph. -/
theorem subgraph_found [Scalar α] (h : Reachable g) (center : String) (depth : Nat)
    (now : Moment) :
    (g.has center = false → (g.subgraph center depth now).relationships = [] ∧
      (g.subgraph center depth now).metadata.totalNodes = 0 ∧
      (g.subgraph center depth now).metadata.totalEdges = 0) ∧
    (g.has center = true → ∃ found, g.Shows (g.subgraph center depth now) found ∧
      (∀ v ∈ found, Within g.Adjacent center depth v) ∧
      (∀ way v, IsWay g.Adjacent center v way →
        v ∈ found ∨ ∃ u ∈ way.dropLast, EndsTrail g.Adjacent center depth u) ∧
      ((∀ u n, n < depth → Within g.Adjacent center n u → ¬EndsTrail g.Adjacent center depth u) →
        ∀ v, v ∈ found ↔ Within g.Adjacent center depth v) ∧
      (depth ≤ 1 ∨ g.nodes.length ≤ depth →
        ∀ v, v ∈ found ↔ Within g.Adjacent center depth v)) := by
  have coherent := coherent_reachable h
  refine ⟨fun unknown => ?_, fun known => ?_⟩
  · unfold subgraph
    rw [unknown]
    exact ⟨rfl, rfl, rfl⟩
  · have inside : center ∈ g.neighbourhood.nodes := (mem_nodes coherent).mpr known
    have closed := closed_neighbourhood coherent
    have spread := Digraph.spread_enteredWithin depth closed inside
    have shown : g.Shows (g.subgraph center depth now)
        (g.neighbourhood.enteredWithin depth [] [(center, 0)]) := by
      unfold subgraph
      rw [known]
      exact shows_of_nodup coherent spread.nodup rfl rfl rfl
    rw [← leads_neighbourhood coherent]
    refine ⟨_, shown, fun v hv => spread.within hv, fun way v h => spread.mem_or_endsTrail h,
      fun early v => spread.mem_iff_within early, fun bound v => ?_⟩
    refine spread.mem_iff_within fun u n lt near ends => ?_
    have := ends.two_le near lt
    have : depth < g.nodes.length := ends.lt_length closed inside
    omega

namespace Sample

/-- A way of two hops to an entity beside an edge that leads there at once, and an entity behind. -/
def shortcut : List (GraphStep Float) :=
  [.add (edge "first" "a" "b") noon, .add (edge "second" "b" "c") noon,
    .add (edge "third" "a" "c") noon, .add (edge "fourth" "c" "d") noon]

end Sample

theorem subgraph_found_shortcut : ∃ g : RelationshipGraph Float, Reachable g ∧
    ∃ found, g.Shows (g.subgraph "a" (1 : Nat) Sample.noon) found ∧
      ∀ v, v ∈ found ↔ Within g.Adjacent "a" 1 v := by
  obtain ⟨g, hg⟩ : ∃ g, create Sample.options Sample.noon = .ok g := ⟨_, rfl⟩
  have h := Reachable.run Sample.shortcut (.created hg)
  have known : (Sample.shortcut.foldl GraphStep.apply g).has "a" = true := by
    cases hg
    decide +kernel
  obtain ⟨found, shown, -, -, -, near⟩ := (subgraph_found h "a" 1 Sample.noon).2 known
  exact ⟨_, h, found, shown, near (.inl (Nat.le_refl 1))⟩

/-- Along the way of two hops the search meets an entity at the depth, and so it misses what lies
behind, although a way of two hops leads there. -/
theorem subgraph_shortcut_misses : ∃ g : RelationshipGraph Float, Reachable g ∧
    g.has "a" = true ∧ (∀ v ∈ ["a", "b", "c", "d"], Within g.Adjacent "a" 2 v) ∧
      (∃ v, g.Adjacent "d" v) ∧
      names (g.subgraph "a" (2 : Nat) Sample.noon).relationships = ["a", "b", "c"] ∧
      (g.subgraph "a" (2 : Nat) Sample.noon).metadata.totalNodes = 3 := by
  obtain ⟨g, hg⟩ : ∃ g, create Sample.options Sample.noon = .ok g := ⟨_, rfl⟩
  have h := Reachable.run Sample.shortcut (.created hg)
  have joined : ∀ t ∈ [("a", "b"), ("a", "c"), ("c", "d"), ("d", "c")],
      t.2 ∈ (Sample.shortcut.foldl GraphStep.apply g).neighbourhood.next t.1 := by
    cases hg
    decide +kernel
  have adjacent : ∀ t ∈ [("a", "b"), ("a", "c"), ("c", "d"), ("d", "c")],
      (Sample.shortcut.foldl GraphStep.apply g).Adjacent t.1 t.2 := by
    rw [← leads_neighbourhood (coherent_reachable h)]
    exact joined
  simp only [List.forall_mem_cons] at adjacent
  obtain ⟨ab, ac, cd, dc, -⟩ := adjacent
  refine ⟨_, h, ?_, ?_, ⟨"c", dc⟩, ?_, ?_⟩
  · cases hg
    decide +kernel
  · simp only [List.forall_mem_cons]
    exact ⟨Digraph.within_self _ _ _, .inl ((Digraph.within_self _ _ _).succ ab),
      .inl ((Digraph.within_self _ _ _).succ ac), ((Digraph.within_self _ _ 0).succ ac).succ cd,
      by simp⟩
  · cases hg
    decide +kernel
  · cases hg
    decide +kernel

end EntityRules.RelationshipGraph
