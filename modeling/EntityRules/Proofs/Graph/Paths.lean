import EntityRules.Proofs.Digraph.Hops
import EntityRules.Proofs.Graph.Links
import EntityRules.Proofs.Graph.Remembered

/-! The search for a path finds a shortest one. -/

namespace EntityRules.RelationshipGraph

open EntityRules.Digraph (IsWay Within)

variable {α : Type} {g : RelationshipGraph α} {source target goal u v : String}
  {seen seen' : List String} {limit n : Nat} {r : Relationship α} {edges : List (Relationship α)}

/-- The first stored edge from one entity to another one. -/
def edge? (g : RelationshipGraph α) (u v : String) : Option (Relationship α) :=
  g.edges.find? fun r => r.source = u ∧ r.target = v

/-- The first stored edges along a way. -/
def Along (g : RelationshipGraph α) (nodes : List String) (edges : List (Relationship α)) : Prop :=
  List.zipWith g.edge? nodes nodes.tail = edges.map some

/-- A path on which no other way from the one entity to the other one is shorter. -/
structure IsShortest [Scalar α] (g : RelationshipGraph α) (source target : String)
    (p : GraphPath α) : Prop where
  way : IsWay g.Leads source target p.nodes
  nodup : p.nodes.Nodup
  hops : p.hops = p.nodes.length - 1
  least : ∀ nodes, IsWay g.Leads source target nodes → p.hops ≤ nodes.length - 1
  strength : ∃ edges, g.Along p.nodes edges ∧ p.strength = (edges.map (·.strength)).foldl (· * ·) 1
  type : p.type = if p.hops ≤ 1 then .direct else if p.hops ≤ 3 then .indirect else .complex

/-- The first edge to another entity is the first one that a search follows. -/
theorem find?_departing (h : Coherent g) (differ : u ≠ v) :
    (g.departing u).find? (·.target = v) = g.edge? u v := by
  have kept : g.edges.filter (·.source = u) = g.outgoingOf u := by
    rw [outgoingOf_eq, ← h.bySource.filter_edgesOf u]
    rfl
  rw [departing, ← kept, List.filter_filter, List.find?_filter, edge?]
  refine congrArg (g.edges.find? ·) (funext fun r => ?_)
  by_cases departs : r.source = u <;> by_cases arrives : r.target = v <;>
    simp [Relationship.isSelfReference, departs, arrives, differ]

/-- A way with one more hop. -/
theorem zipWith_tail_concat {β : Type} (f : String → String → β) (front : List String)
    (u v : String) :
    List.zipWith f (front ++ [u] ++ [v]) (front ++ [u] ++ [v]).tail =
      List.zipWith f (front ++ [u]) (front ++ [u]).tail ++ [f u v] := by
  induction front with
  | nil => rfl
  | cons x front ih =>
    cases front with
    | nil => rfl
    | cons y front => simpa using ih

theorem Along.concat {front : List String} (h : g.Along (front ++ [u]) edges)
    (first : g.edge? u v = some r) : g.Along (front ++ [u] ++ [v]) (edges ++ [r]) := by
  rw [Along, zipWith_tail_concat, h, first, List.map_append]
  rfl

variable [Scalar α] {w way : Route α} {queue queue' : List (Route α)}

/-- A shortest way from an entity over entities that have been seen. -/
structure IsRoute (g : RelationshipGraph α) (source : String) (seen : List String) (w : Route α) :
    Prop where
  way : IsWay g.Leads source w.last (w.last :: w.before).reverse
  nodup : (w.last :: w.before).Nodup
  seen : ∀ v ∈ w.last :: w.before, v ∈ seen
  least : ∀ n, Within g.Leads source n w.last → w.before.length ≤ n
  strength : ∃ edges, g.Along (w.last :: w.before).reverse edges ∧
    w.strength = (edges.map (·.strength)).foldl (· * ·) 1

theorem IsRoute.mono (h : IsRoute g source seen w) (more : ∀ v ∈ seen, v ∈ seen') :
    IsRoute g source seen' w :=
  { h with seen := fun v hv => more v (h.seen v hv) }

theorem isRoute_start (g : RelationshipGraph α) (source : String) :
    IsRoute g source [source] { last := source, before := [], strength := 1 } where
  way := Digraph.isWay_singleton _ source
  nodup := List.nodup_singleton source
  seen _ hv := hv
  least n _ := Nat.zero_le n
  strength := ⟨[], rfl, rfl⟩

/-- A way goes on along the first edge to an entity that lies further than its end. -/
theorem IsRoute.along (h : IsRoute g source seen w) (first : g.edge? w.last r.target = some r)
    (edge : g.Leads w.last r.target) (new : r.target ∉ seen)
    (far : ∀ n, Within g.Leads source n r.target → w.before.length < n) :
    IsRoute g source (r.target :: seen) (w.along r) := by
  have nodes : ((w.along r).last :: (w.along r).before).reverse =
      (w.last :: w.before).reverse ++ [r.target] := by simp [Route.along]
  constructor
  · rw [nodes]
    exact h.way.concat edge
  · exact List.nodup_cons.mpr ⟨fun old => new (h.seen _ old), h.nodup⟩
  · intro v hv
    rcases List.mem_cons.mp hv with rfl | hv
    · exact List.mem_cons_self
    · exact List.mem_cons_of_mem _ (h.seen v hv)
  · exact far
  · obtain ⟨edges, along, strength⟩ := h.strength
    refine ⟨edges ++ [r], ?_, ?_⟩
    · rw [nodes]
      rw [List.reverse_cons] at along ⊢
      exact along.concat first
    · rw [List.map_append, List.foldl_append, ← strength]
      rfl

theorem IsRoute.isShortest (h : IsRoute g source seen w) : g.IsShortest source w.last w.path where
  way := h.way
  nodup := List.nodup_reverse.mpr h.nodup
  hops := by simp [Route.path]
  least nodes way := h.least _ (way.within (by omega))
  strength := h.strength
  type := rfl

theorem follow_arrived (off : goal ∉ seen) (h : w.follow goal seen queue edges = .arrived way) :
    ∃ r, edges.find? (·.target = goal) = some r ∧ way = w.along r := by
  induction edges generalizing seen queue with
  | nil => cases h
  | cons r rest ih =>
    rw [Route.follow] at h
    split at h
    · next old =>
      obtain ⟨e, found, along⟩ := ih off h
      have other : r.target ≠ goal := fun same => off (same ▸ old)
      exact ⟨e, by rw [List.find?_cons_of_neg (by simpa using other), found], along⟩
    · split at h
      · next same =>
        exact ⟨r, List.find?_cons_of_pos (by simpa using same), (Frontier.arrived.inj h).symm⟩
      · next other =>
        have off' : goal ∉ r.target :: seen :=
          List.not_mem_cons_of_ne_of_not_mem (Ne.symm other) off
        obtain ⟨e, found, along⟩ := ih off' h
        exact ⟨e, by rw [List.find?_cons_of_neg (by simpa using other), found], along⟩

/-- The queue grows by the ways along the first edges to entities that had not been seen. -/
theorem follow_onward (h : w.follow goal seen queue edges = .onward seen' queue') :
    ∃ firsts : List (Relationship α), queue' = queue ++ firsts.map w.along ∧
      (∀ v, v ∈ seen' ↔ v ∈ seen ∨ ∃ r ∈ firsts, r.target = v) ∧
      (∀ r ∈ edges, r.target ∈ seen') ∧
      ∀ r ∈ firsts, r.target ∉ seen ∧ r.target ≠ goal ∧
        edges.find? (·.target = r.target) = some r := by
  induction edges generalizing seen queue with
  | nil =>
    obtain ⟨rfl, rfl⟩ := Frontier.onward.inj h
    exact ⟨[], by simp⟩
  | cons e rest ih =>
    rw [Route.follow] at h
    split at h
    · next old =>
      obtain ⟨firsts, grown, seen_iff, covered, first⟩ := ih h
      refine ⟨firsts, grown, seen_iff, ?_, fun r hr => ?_⟩
      · exact List.forall_mem_cons.mpr ⟨(seen_iff _).mpr (.inl old), covered⟩
      · obtain ⟨new, off, found⟩ := first r hr
        have other : e.target ≠ r.target := fun same => new (same ▸ old)
        exact ⟨new, off, by rw [List.find?_cons_of_neg (by simpa using other), found]⟩
    · split at h
      · cases h
      · next new off =>
        obtain ⟨firsts, grown, seen_iff, covered, first⟩ := ih h
        refine ⟨e :: firsts, ?_, fun v => ?_, ?_, ?_⟩
        · rw [grown, List.map_cons, List.append_assoc, List.singleton_append]
        · rw [seen_iff, List.mem_cons, List.exists_mem_cons_iff, eq_comm, or_assoc, or_left_comm]
        · exact List.forall_mem_cons.mpr ⟨(seen_iff _).mpr (.inl List.mem_cons_self), covered⟩
        · refine List.forall_mem_cons.mpr ⟨⟨new, off, by simp⟩, fun r hr => ?_⟩
          obtain ⟨new', off', found⟩ := first r hr
          rw [List.mem_cons, not_or] at new'
          refine ⟨new'.2, off', ?_⟩
          rw [List.find?_cons_of_neg (by simpa using Ne.symm new'.1), found]

/-- What a search keeps. -/
structure Searching (g : RelationshipGraph α) (source goal : String) (limit : Nat)
    (seen : List String) (queue : List (Route α)) : Prop where
  routes : ∀ w ∈ queue, IsRoute g source seen w
  sorted : queue.Pairwise fun w w' =>
    w.before.length ≤ w'.before.length ∧ w'.before.length ≤ w.before.length + 1
  bounded : ∀ w ∈ queue, w.before.length ≤ limit
  began : source ∈ seen
  ahead : goal ∉ seen
  expanded : ∀ v ∈ seen, (∃ w ∈ queue, w.last = v) ∨
    ∀ n < limit, Within g.Leads source n v → ∀ u, g.Leads v u → u ∈ seen

namespace Searching

theorem start (differ : source ≠ goal) :
    Searching g source goal limit [source]
      [{ last := source, before := [], strength := 1 }] where
  routes := by simpa using isRoute_start g source
  sorted := List.pairwise_singleton _ _
  bounded := by simp
  began := List.mem_cons_self
  ahead := by simpa using Ne.symm differ
  expanded := by simp

/-- Whatever lies no further than all ways in the queue has been seen. -/
theorem mem_seen (h : Searching g source goal limit seen queue) (le : n ≤ limit)
    (front : ∀ w ∈ queue, n ≤ w.before.length) (near : Within g.Leads source n v) : v ∈ seen := by
  induction n generalizing v with
  | zero => exact near ▸ h.began
  | succ n ih =>
    have earlier : ∀ {v}, Within g.Leads source n v → v ∈ seen :=
      ih (Nat.le_of_succ_le le) fun w hw => Nat.le_of_succ_le (front w hw)
    rcases near with near | ⟨u, near, edge⟩
    · exact earlier near
    · rcases h.expanded u (earlier near) with ⟨w, hw, rfl⟩ | done
      · exact absurd ((h.routes w hw).least n near) (Nat.not_le.mpr (front w hw))
      · exact done n le near v edge

theorem skip (h : Searching g source goal limit seen (w :: queue))
    (full : limit ≤ w.before.length) : Searching g source goal limit seen queue := by
  obtain ⟨route, routes⟩ := List.forall_mem_cons.mp h.routes
  refine { h with routes, sorted := (List.pairwise_cons.mp h.sorted).2,
                  bounded := (List.forall_mem_cons.mp h.bounded).2, expanded := fun v hv => ?_ }
  rcases h.expanded v hv with ⟨w', hw', rfl⟩ | done
  · rcases List.mem_cons.mp hw' with rfl | hw'
    · exact .inr fun n lt near => absurd (full.trans (route.least n near)) (Nat.not_le.mpr lt)
    · exact .inl ⟨w', hw', rfl⟩
  · exact .inr done

/-- An entity that is first seen from the front of the queue lies further than the front. -/
theorem route_along (h : Searching g source goal limit seen (w :: queue)) (coherent : Coherent g)
    (found : (g.departing w.last).find? (·.target = r.target) = some r) (new : r.target ∉ seen) :
    IsRoute g source (r.target :: seen) (w.along r) := by
  have route := h.routes w List.mem_cons_self
  have edge : g.Leads w.last r.target :=
    (leads_iff coherent).mpr ⟨r, List.mem_of_find?_eq_some found, rfl⟩
  have differ : w.last ≠ r.target := edge.1
  refine route.along (find?_departing coherent differ ▸ found) edge new fun n near => ?_
  by_contra le
  refine new (h.mem_seen ((Nat.not_lt.mp le).trans (h.bounded w List.mem_cons_self)) ?_ near)
  exact List.forall_mem_cons.mpr ⟨Nat.not_lt.mp le,
    fun w' hw' => (Nat.not_lt.mp le).trans ((List.pairwise_cons.mp h.sorted).1 w' hw').1⟩

theorem onward (h : Searching g source goal limit seen (w :: queue)) (coherent : Coherent g)
    (room : ¬limit ≤ w.before.length)
    (followed : w.follow goal seen queue (g.departing w.last) = .onward seen' queue') :
    Searching g source goal limit seen' queue' := by
  obtain ⟨firsts, rfl, seen_iff, covered, first⟩ := follow_onward followed
  have more : ∀ v ∈ seen, v ∈ seen' := fun v hv => (seen_iff v).mpr (.inl hv)
  obtain ⟨-, routes⟩ := List.forall_mem_cons.mp h.routes
  obtain ⟨close, sorted⟩ := List.pairwise_cons.mp h.sorted
  constructor
  · refine List.forall_mem_append.mpr ⟨fun w' hw' => (routes w' hw').mono more, ?_⟩
    refine List.forall_mem_map.mpr fun r hr => ?_
    obtain ⟨new, -, found⟩ := first r hr
    refine (h.route_along coherent found new).mono fun v hv => ?_
    rcases List.mem_cons.mp hv with rfl | hv
    · exact (seen_iff _).mpr (.inr ⟨r, hr, rfl⟩)
    · exact more v hv
  · refine List.pairwise_append.mpr
      ⟨sorted, ?_, fun w' hw' => List.forall_mem_map.mpr fun r _ => ?_⟩
    · refine List.pairwise_map.mpr (List.pairwise_of_forall fun r r' => ?_)
      exact ⟨Nat.le_refl _, Nat.le_succ _⟩
    · obtain ⟨least, most⟩ := close w' hw'
      exact ⟨most, Nat.succ_le_succ least⟩
  · refine List.forall_mem_append.mpr ⟨(List.forall_mem_cons.mp h.bounded).2, ?_⟩
    exact List.forall_mem_map.mpr fun r _ => Nat.lt_of_not_le room
  · exact more source h.began
  · rw [seen_iff]
    rintro (old | ⟨r, hr, same⟩)
    · exact h.ahead old
    · exact (first r hr).2.1 same
  · intro v hv
    rcases (seen_iff v).mp hv with old | ⟨r, hr, rfl⟩
    · rcases h.expanded v old with ⟨w', hw', rfl⟩ | done
      · rcases List.mem_cons.mp hw' with rfl | hw'
        · refine .inr fun _ _ _ u edge => ?_
          obtain ⟨r, hr, rfl⟩ := (leads_iff coherent).mp edge
          exact covered r hr
        · exact .inl ⟨w', List.mem_append_left _ hw', rfl⟩
      · exact .inr fun n lt near u edge => more u (done n lt near u edge)
    · exact .inl ⟨w.along r, List.mem_append_right _ (List.mem_map_of_mem hr), rfl⟩

end Searching

/-- A search that finds a way has found a shortest one, and a search that finds none has missed
none. -/
theorem searchFrom_shortest (h : Searching g source goal limit seen queue) (coherent : Coherent g) :
    (∀ way ∈ g.searchFrom goal limit seen queue,
      way.last = goal ∧ way.before.length ≤ limit ∧ ∃ seen, IsRoute g source seen way) ∧
    (g.searchFrom goal limit seen queue = none → ¬Within g.Leads source limit goal) := by
  induction seen, queue using searchFrom.induct g goal limit with
  | case1 seen =>
    rw [searchFrom_nil]
    exact ⟨by simp, fun _ near => h.ahead (h.mem_seen (Nat.le_refl _) (by simp) near)⟩
  | case2 seen w queue full ih =>
    rw [searchFrom_full _ full]
    exact ih (h.skip full)
  | case3 seen w queue room way arrived =>
    rw [searchFrom_arrived _ room arrived]
    obtain ⟨r, found, rfl⟩ := follow_arrived h.ahead arrived
    obtain rfl : r.target = goal := by simpa using List.find?_some found
    refine ⟨?_, by simp⟩
    rintro way ⟨⟩
    exact ⟨rfl, Nat.lt_of_not_le room, _, h.route_along coherent found h.ahead⟩
  | case4 seen w queue room seen' queue' onward ih =>
    rw [searchFrom_onward _ room onward]
    exact ih (h.onward coherent room onward)

theorem searchPath?_shortest (h : Coherent g) (differ : source ≠ target) :
    (∀ p ∈ g.searchPath? source target limit, g.IsShortest source target p) ∧
      ((g.searchPath? source target limit).isSome = true ↔
        Within g.Leads source limit target) := by
  by_cases known : g.has source = true ∧ g.has target = true
  · rw [searchPath?, if_pos (by simpa using known)]
    have started : Searching g source target limit [source] _ := Searching.start differ
    obtain ⟨sound, complete⟩ := searchFrom_shortest started h
    cases found : g.searchFrom target limit [source] _ with
    | none => exact ⟨by simp, by simpa using complete found⟩
    | some way =>
      obtain ⟨rfl, bounded, seen, route⟩ := sound way found
      have near : Within g.Leads source limit way.last :=
        route.way.within (by simpa using bounded)
      exact ⟨by simpa using route.isShortest, by simpa using near⟩
  · rw [searchPath?, if_neg (by simpa using known)]
    have far : ¬Within g.Leads source limit target := fun near =>
      known ⟨Reaches.has_first h near.reaches differ, Reaches.has_last h near.reaches differ⟩
    exact ⟨by simp, by simpa using far⟩

theorem path_self (g : RelationshipGraph α) (source : String) (hops : Option (Extent Float)) :
    (g.path source source hops).1 =
      .ok (some { nodes := [source], strength := 1, hops := 0, type := .direct }) := by
  unfold path pathWithin pathWithout
  dsimp only
  split
  · rw [if_pos rfl]
    rfl
  · rw [if_pos rfl]
    rfl

theorem Reachable.path_within (h : Reachable g) (differ : source ≠ target)
    {hops : Option (Extent Float)} {limit : Int}
    (bound : (hops.getD g.options.pathHops).bound Extent.notReached = .ok (.ofInt limit)) :
    ∃ found, (g.path source target hops).1 = .ok found ∧
      (found.isSome = true ↔
        ∃ nodes, IsWay g.Leads source target nodes ∧ (nodes.length : Int) - 1 ≤ limit) ∧
      ∀ p ∈ found, g.IsShortest source target p := by
  have answer : (g.path source target hops).1 =
      .ok (g.searchPath? source target limit.toNat) := by
    unfold path
    dsimp only
    rw [bound]
    dsimp only
    rw [pathWithin_eq (pathsCurrent_reachable h), if_neg differ, Bound.ceiling_ofInt]
  obtain ⟨sound, found_iff⟩ := searchPath?_shortest (coherent_reachable h) differ
  refine ⟨_, answer, found_iff.trans ?_, sound⟩
  rw [Digraph.within_iff]
  refine exists_congr fun nodes => and_congr_right fun way => ?_
  have := way.two_le_length differ
  omega

/-- A path within a number of hops is found if and only if there is one, and then it is a shortest
one, whatever is remembered. An entity has a path without hops to itself. -/
theorem path_shortest (h : Reachable g) (source target : String) (hops : Option (Extent Float)) :
    (source = target → (g.path source target hops).1 =
      .ok (some { nodes := [source], strength := 1, hops := 0, type := .direct })) ∧
    (∀ limit : Int, source ≠ target →
      (hops.getD g.options.pathHops).bound Extent.notReached = .ok (.ofInt limit) →
      ∃ found, (g.path source target hops).1 = .ok found ∧
        (found.isSome = true ↔
          ∃ nodes, IsWay g.Leads source target nodes ∧ (nodes.length : Int) - 1 ≤ limit) ∧
        ∀ p ∈ found, g.IsShortest source target p) ∧
    ∀ g' : RelationshipGraph α, SameStore g g' → g'.paths.entries = [] →
      (g'.path source target hops).1 = (g.path source target hops).1 := by
  refine ⟨?_, fun limit differ bound => h.path_within differ bound, fun g' same empty => ?_⟩
  · rintro rfl
    exact path_self g source hops
  · refine same.alike.path (pathsCurrent_reachable h) (fun e he => ?_) source target hops
    rw [empty] at he
    cases he

namespace Sample

def six : Option (Extent Float) := some (.whole 6)

/-- A way of three hops, found before the edge that makes it one of two hops is stored, with an edge
of another type beside the first one. -/
def detour : List (GraphStep Float) :=
  [.add (edge "first" "a" "b") noon, .add { edge "beside" "a" "b" with type := .sequence } noon,
    .add (edge "second" "b" "c") noon, .add (edge "third" "c" "d") noon,
    .path "a" "d" six, .add (edge "fourth" "b" "d") noon, .path "a" "d" six]

/-- The entities on a path that was found. -/
def pathNodes (answer : Except ExtentTrouble (Option (GraphPath Float))) :
    Option (List String) :=
  (answer.toOption.bind id).map (·.nodes)

end Sample

theorem path_shortest_detour : ∃ g : RelationshipGraph Float, Reachable g ∧
    g.paths.entries.length = 1 ∧
    (∃ p, (g.path "a" "d" Sample.six).1 = .ok (some p) ∧ p.nodes = ["a", "b", "d"] ∧
      g.IsShortest "a" "d" p ∧ (g.forget.path "a" "d" Sample.six).1 = .ok (some p)) ∧
    ¬∃ nodes, IsWay g.Leads "a" "d" nodes ∧ (nodes.length : Int) - 1 ≤ 1 := by
  obtain ⟨g, hg⟩ : ∃ g, create Sample.options Sample.noon = .ok g := ⟨_, rfl⟩
  have h := Reachable.run Sample.detour (.created hg)
  obtain ⟨-, within, anew⟩ := path_shortest h "a" "d" Sample.six
  obtain ⟨found, answer, -, shortest⟩ := within 6 (by decide) rfl
  obtain ⟨-, near, -⟩ := path_shortest h "a" "d" (some (.whole 1))
  obtain ⟨found', answer', found_iff, -⟩ := near 1 (by decide) rfl
  refine ⟨_, h, ?_, ?_, ?_⟩
  · cases hg
    decide +kernel
  · have seen : Sample.pathNodes (.ok found) = some ["a", "b", "d"] := by
      rw [← answer]
      cases hg
      decide +kernel
    obtain ⟨p, rfl, nodes⟩ := Option.map_eq_some_iff.mp seen
    refine ⟨p, answer, nodes, shortest p rfl, ?_⟩
    exact (anew _ (sameStore_forget _) (forgetful_forget _).2).trans answer
  · have missed : Sample.pathNodes (.ok found') = none := by
      rw [← answer']
      cases hg
      decide +kernel
    obtain rfl : found' = none := Option.map_eq_none_iff.mp missed
    rw [← found_iff]
    exact Bool.false_ne_true

end EntityRules.RelationshipGraph
