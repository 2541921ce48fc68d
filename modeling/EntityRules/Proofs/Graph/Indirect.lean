import EntityRules.Proofs.Graph.Paths
import EntityRules.Proofs.Graph.Trails

/-! Indirect relationships lead to the entities that a shortest path needs two or more hops to. -/

namespace EntityRules.RelationshipGraph

open EntityRules.Digraph (IsWay Within)

variable {α : Type} {g : RelationshipGraph α} {id t : String} {limit : Nat}
  {reported : List String} {trails : List (Relationship α × List String)}
  {x : Relationship α × List String}

theorem mem_firstArrivals : x ∈ firstArrivals reported trails ↔
    x.1.target ∉ reported ∧ trails.find? (·.1.target = x.1.target) = some x := by
  induction trails generalizing reported with
  | nil => simp [firstArrivals]
  | cons y rest ih =>
    rw [firstArrivals]
    split
    · next old =>
      rw [ih]
      refine and_congr_right fun new => ?_
      have other : y.1.target ≠ x.1.target := fun same => new (same ▸ old)
      rw [List.find?_cons_of_neg (by simpa using other)]
    · next new =>
      rw [List.mem_cons, ih]
      by_cases same : y.1.target = x.1.target
      · have found : (y :: rest).find? (·.1.target = x.1.target) = some y :=
          List.find?_cons_of_pos (by simpa using same)
        rw [found, Option.some_inj, eq_comm]
        refine ⟨fun h => ?_, fun h => .inl h.2⟩
        rcases h with rfl | ⟨unreported, -⟩
        · exact ⟨new, rfl⟩
        · exact absurd (same ▸ List.mem_cons_self) unreported
      · rw [List.find?_cons_of_neg (by simpa using same)]
        have apart : x ≠ y := fun h => same (h ▸ rfl)
        simp [apart, Ne.symm same]

theorem nodup_firstArrivals (reported : List String)
    (trails : List (Relationship α × List String)) :
    ((firstArrivals reported trails).map (·.1.target)).Nodup := by
  induction trails generalizing reported with
  | nil => exact List.nodup_nil
  | cons y rest ih =>
    rw [firstArrivals]
    split
    · exact ih reported
    · refine List.nodup_cons.mpr ⟨fun again => ?_, ih _⟩
      obtain ⟨x, hx, same⟩ := List.mem_map.mp again
      exact (mem_firstArrivals.mp hx).1 (same ▸ List.mem_cons_self)

/-- What is first among all with a property is first among those that are kept, if it is kept. -/
theorem find?_filter_of_first {β : Type} {l : List β} {keep p : β → Bool}
    (first : ∀ y, l.find? p = some y → keep y = true) : (l.filter keep).find? p = l.find? p := by
  rw [List.find?_filter]
  cases found : l.find? p with
  | none =>
    rw [List.find?_eq_none] at found ⊢
    intro y hy both
    exact found y hy (of_decide_eq_true both).2
  | some y =>
    obtain ⟨holds, front, back, rfl, others⟩ := List.find?_eq_some_iff_append.mp found
    refine List.find?_eq_some_iff_append.mpr ⟨by simp [first y found, holds], front, back, rfl, ?_⟩
    intro z hz
    have fails := others z hz
    simp_all

/-- The first trails to the entities that no edge leads to directly. -/
def arrivals (g : RelationshipGraph α) (id : String) (steps : Nat) :
    List (Relationship α × List String) :=
  firstArrivals ((g.departing id).map (·.target))
    ((g.trailsFrom steps [id]).filter fun t => t.2.length > 1)

/-- A single edge leads to what the entity is directly related to. -/
theorem IsTrail.two_le (h : Coherent g) {choices : List Nat} {edges : List (Relationship α)}
    (trail : IsTrail g [] id t limit choices edges) (far : ¬g.Leads id t) : 2 ≤ edges.length := by
  obtain ⟨n, rest, r, steps, -, -, departs, -, ⟨-, rfl, rfl⟩ | ⟨others, rfl, onward⟩⟩ := trail.cases
  · exact absurd ((leads_iff h).mpr ⟨r, List.mem_of_getElem? departs, rfl⟩) far
  · obtain ⟨_, _, _, _, -, -, -, -, ⟨-, rfl, -⟩ | ⟨_, rfl, -⟩⟩ := onward.cases
    · exact Nat.le_refl 2
    · simp

theorem mem_arrivals (h : Coherent g) {steps : Nat} : x ∈ g.arrivals id steps ↔
    ¬g.Leads id x.1.target ∧
      (g.trailsFrom steps [id]).find? (·.1.target = x.1.target) = some x := by
  have direct : x.1.target ∈ (g.departing id).map (·.target) ↔ g.Leads id x.1.target := by
    rw [leads_iff h, List.mem_map]
  rw [arrivals, mem_firstArrivals, direct]
  refine and_congr_right fun far => ?_
  rw [find?_filter_of_first]
  intro y found
  have finds : Finds g [] id x.1.target steps _ :=
    finds_trailsFrom g x.1.target steps (List.nodup_singleton id)
  rw [found] at finds
  obtain ⟨choices, edges, ⟨trail, -⟩, -, length⟩ := finds
  have := trail.two_le h far
  simp only [length, List.length_nil, Nat.zero_add, decide_eq_true_eq]
  omega

theorem first_of_arrival (h : Coherent g) (hx : x ∈ g.arrivals id limit) :
    ∃ choices edges, IsFirstTrail g [] id x.1.target limit choices edges ∧
      edges.getLast? = some x.1 ∧ x.2.length = edges.length := by
  have finds : Finds g [] id x.1.target limit _ :=
    finds_trailsFrom g x.1.target limit (List.nodup_singleton id)
  rw [((mem_arrivals h).mp hx).2] at finds
  obtain ⟨choices, edges, first, ends, length⟩ := finds
  exact ⟨choices, edges, first, ends, by simpa using length⟩

theorem mem_map_arrivals (h : Coherent g) {steps : Nat} :
    t ∈ (g.arrivals id steps).map (·.1.target) ↔
      ¬g.Leads id t ∧ ∃ choices edges, IsTrail g [] id t steps choices edges := by
  have finds : Finds g [] id t steps _ := finds_trailsFrom g t steps (List.nodup_singleton id)
  constructor
  · intro ht
    obtain ⟨x, hx, rfl⟩ := List.mem_map.mp ht
    obtain ⟨far, found⟩ := (mem_arrivals h).mp hx
    rw [found] at finds
    obtain ⟨choices, edges, first, -, -⟩ := finds
    exact ⟨far, choices, edges, first.trail⟩
  · rintro ⟨far, choices, edges, trail⟩
    cases found : (g.trailsFrom steps [id]).find? (·.1.target = t) with
    | none =>
      rw [found] at finds
      exact absurd trail (finds choices edges)
    | some x =>
      obtain rfl : x.1.target = t := by simpa using List.find?_some found
      exact List.mem_map_of_mem ((mem_arrivals h).mpr ⟨far, found⟩)

variable [Scalar α]

/-- A shortest path within a limit needs two or more hops to another entity. -/
def IsFar (g : RelationshipGraph α) (id t : String) (limit : Int) : Prop :=
  id ≠ t ∧ ∃ p, (g.path id t (some (.whole limit))).1 = .ok (some p) ∧ 2 ≤ p.hops

theorem exists_isTrail_iff (h : Coherent g) :
    (∃ choices edges, IsTrail g [] id t limit choices edges) ↔
      id ≠ t ∧ Within g.Leads id limit t := by
  constructor
  · rintro ⟨choices, edges, trail⟩
    refine ⟨?_, trail.within h⟩
    rintro rfl
    obtain ⟨last, ends, same⟩ := Option.map_eq_some_iff.mp trail.stop
    have met : id ∈ edges.map (·.target) :=
      List.mem_map.mpr ⟨last, List.mem_of_getLast? ends, same⟩
    exact (List.nodup_cons.mp trail.nodup).1 met
  · rintro ⟨differ, near⟩
    obtain ⟨shortest, found_iff⟩ : (∀ p ∈ g.searchPath? id t limit, _) ∧ _ :=
      searchPath?_shortest h differ
    obtain ⟨p, found⟩ := Option.isSome_iff_exists.mp (found_iff.mpr near)
    have best := shortest p found
    obtain ⟨nodes, way, length⟩ := Digraph.within_iff.mp near
    have := best.least nodes way
    have := best.hops
    exact exists_isTrail_of_isWay h best.way best.nodup differ (by omega)

theorem path_whole (h : Reachable g) (differ : id ≠ t) (limit : Int) :
    (g.path id t (some (.whole limit))).1 = .ok (g.searchPath? id t limit.toNat) := by
  have answer := pathWithin_eq (pathsCurrent_reachable h) id t (.ofInt limit)
  rw [if_neg differ, Bound.ceiling_ofInt] at answer
  rw [← answer]
  rfl

theorem isFar_iff (h : Reachable g) {limit : Int} :
    g.IsFar id t limit ↔ ¬g.Leads id t ∧
      ∃ choices edges, IsTrail g [] id t limit.toNat choices edges := by
  have coherent := coherent_reachable h
  rw [exists_isTrail_iff coherent, IsFar, and_left_comm]
  refine and_congr_right fun differ => ?_
  rw [path_whole h differ]
  obtain ⟨shortest, found_iff⟩ : (∀ p ∈ g.searchPath? id t limit.toNat, _) ∧ _ :=
    searchPath?_shortest coherent differ
  constructor
  · rintro ⟨p, found, hops⟩
    have found := Except.ok.inj found
    refine ⟨fun edge => ?_, found_iff.mp (Option.isSome_iff_exists.mpr ⟨p, found⟩)⟩
    have way := (Digraph.isWay_singleton g.Leads id).concat edge
    have := (shortest p found).least _ way
    simp only [List.length_append, List.length_singleton] at this
    omega
  · rintro ⟨far, near⟩
    obtain ⟨p, found⟩ := Option.isSome_iff_exists.mp (found_iff.mpr near)
    refine ⟨p, congrArg Except.ok found, ?_⟩
    have best := shortest p found
    have := best.hops
    by_contra few
    rcases best.way.within (n := 1) (by omega) with same | ⟨u, same, edge⟩
    · exact differ same.symm
    · exact far (same ▸ edge)

theorem indirectAlong_eq_ok {now : Moment} {last r : Relationship α} {trail : List String}
    (h : g.indirectAlong id now last trail = .ok r) :
    r.source = id ∧ r.target = last.target ∧ r.type = .sequence ∧
      ∃ decay, g.options.strengthDecay.power (trail.length - 1) = .ok decay ∧
        r.strength = Scalar.clamp (last.strength * decay) := by
  obtain ⟨decay, power, rfl⟩ := map_eq_ok.mp h
  exact ⟨rfl, rfl, rfl, decay, power, rfl⟩

/-- A relationship of an entity to what a first trail leads to, as strong as the last edge of the
trail, less a factor for every hop behind the first one. -/
structure IsIndirect (g : RelationshipGraph α) (id : String) (limit : Nat) (r : Relationship α) :
    Prop where
  source : r.source = id
  type : r.type = .sequence
  strength : ∃ choices edges last decay, IsFirstTrail g [] id r.target limit choices edges ∧
    2 ≤ edges.length ∧ edges.getLast? = some last ∧
    g.options.strengthDecay.power (edges.length - 1) = .ok decay ∧
    r.strength = Scalar.clamp (last.strength * decay)

theorem isIndirect_of_arrival (h : Coherent g) {now : Moment} {r : Relationship α}
    (hx : x ∈ g.arrivals id limit) (made : g.indirectAlong id now x.1 x.2 = .ok r) :
    g.IsIndirect id limit r ∧ r.target = x.1.target := by
  obtain ⟨choices, edges, first, ends, length⟩ := first_of_arrival h hx
  obtain ⟨source, target, type, decay, power, strength⟩ := indirectAlong_eq_ok made
  rw [length] at power
  refine ⟨⟨source, type, choices, edges, x.1, decay, ?_, ?_, ends, power, strength⟩, target⟩
  · rwa [target]
  · exact first.trail.two_le h ((mem_arrivals h).mp hx).1

/-- Indirect relationships lead just to the entities that a shortest path needs two or more hops to,
to each of them once, as strong as the first trail in depth-first order says. They are found exactly
if all the powers that are needed are in the range of numbers. -/
theorem indirect_far (h : Reachable g) (id : String) (depth : Option (Extent Float)) (now : Moment)
    {limit : Int} (bound : (depth.getD g.options.indirectDepth).bound Extent.notAtMost =
      .ok (.ofInt limit)) :
    ((∃ found, g.indirect id depth now = .ok found) ↔
      ∀ t choices edges, g.IsFar id t limit → IsFirstTrail g [] id t limit.toNat choices edges →
        ∃ decay, g.options.strengthDecay.power (edges.length - 1) = .ok decay) ∧
    ∀ found, g.indirect id depth now = .ok found →
      (found.map (·.target)).Nodup ∧
      (∀ t, t ∈ found.map (·.target) ↔ g.IsFar id t limit) ∧
      ∀ r ∈ found, g.IsIndirect id limit.toNat r ∧ r.target ≠ id ∧ ¬g.Leads id r.target := by
  have coherent := coherent_reachable h
  have answer : g.indirect id depth now =
      (g.arrivals id limit.toNat).mapM fun x => g.indirectAlong id now x.1 x.2 := by
    rw [indirect, bound]
    simp only [Except.bind, Bound.ceiling_ofInt]
    rfl
  have far_iff : ∀ t, t ∈ (g.arrivals id limit.toNat).map (·.1.target) ↔ g.IsFar id t limit :=
    fun t => (mem_map_arrivals coherent).trans (isFar_iff h).symm
  rw [answer, exists_mapM_eq_ok]
  constructor
  · constructor
    · intro made t choices edges far first
      obtain ⟨x, hx, rfl⟩ := List.mem_map.mp ((far_iff t).mpr far)
      obtain ⟨r, along⟩ := made x hx
      obtain ⟨indirect, same⟩ := isIndirect_of_arrival coherent hx along
      obtain ⟨_, _, _, decay, first', -, -, power, -⟩ := indirect.strength
      rw [same] at first'
      exact ⟨decay, first'.unique first ▸ power⟩
    · intro powers x hx
      obtain ⟨choices, edges, first, -, length⟩ := first_of_arrival coherent hx
      obtain ⟨decay, power⟩ := powers _ _ _ ((far_iff _).mp (List.mem_map_of_mem hx)) first
      rw [← length] at power
      exact ⟨_, map_eq_ok.mpr ⟨decay, power, rfl⟩⟩
  · intro found made
    have targets : found.map (·.target) = (g.arrivals id limit.toNat).map (·.1.target) :=
      map_of_mapM made fun x r along => (indirectAlong_eq_ok along).2.1
    rw [targets]
    refine ⟨nodup_firstArrivals _ _, far_iff, fun r hr => ?_⟩
    obtain ⟨x, hx, along⟩ := exists_of_mapM made hr
    obtain ⟨indirect, same⟩ := isIndirect_of_arrival coherent hx along
    obtain ⟨far, -⟩ := (mem_arrivals coherent).mp hx
    have other := ((far_iff _).mp (List.mem_map_of_mem hx)).1
    rw [same]
    exact ⟨indirect, other.symm, far⟩

namespace Sample

/-- A square with a shortcut that is stored last, and a way back. -/
def square : List (GraphStep Float) :=
  [.add (edge "first" "a" "b") noon, .add (edge "second" "b" "c") noon,
    .add { edge "third" "c" "d" with strength := 0.5 } noon, .add (edge "short" "b" "d") noon,
    .add (edge "back" "d" "a") noon]

def three : Option (Extent Float) := some (.whole 3)

/-- What indirect relationships lead to, and how strong they are. -/
def shown (answer : Except ExtentTrouble (List (Relationship Float))) :
    Except ExtentTrouble (List (String × Float)) :=
  answer.map fun found => found.map fun r => (r.target, r.strength)

/-- A graph in which a hop weakens by more than a number can say. -/
def boundless : GraphOptions Float := { options with strengthDecay := .whole (Int.pow 10 400) }

end Sample

theorem indirect_far_square : ∃ g : RelationshipGraph Float, Reachable g ∧
    (∃ found, g.indirect "a" Sample.three Sample.noon = .ok found ∧
      found.map (fun r => (r.target, r.strength)) = [("c", 1), ("d", 0.5)] ∧
      ∀ r ∈ found, g.IsIndirect "a" 3 r) ∧
    g.IsFar "a" "d" 3 ∧ ¬g.IsFar "a" "b" 3 := by
  obtain ⟨g, hg⟩ : ∃ g, create Sample.options Sample.noon = .ok g := ⟨_, rfl⟩
  have h := Reachable.run Sample.square (.created hg)
  have shown : Sample.shown ((Sample.square.foldl GraphStep.apply g).indirect "a" Sample.three
      Sample.noon) = .ok [("c", 1), ("d", 0.5)] := by
    cases hg
    decide +kernel
  have three : (Sample.three.getD (.whole 3)).bound Extent.notAtMost = .ok (.ofInt 3) := rfl
  obtain ⟨-, told⟩ := indirect_far h "a" Sample.three Sample.noon three
  obtain ⟨found, answer, list⟩ := map_eq_ok.mp shown
  obtain ⟨-, far_iff, each⟩ := told found answer
  have targets : found.map (·.target) = ["c", "d"] := by
    simpa [Function.comp_def] using congrArg (List.map (·.1)) list
  refine ⟨_, h, ⟨found, answer, list, fun r hr => (each r hr).1⟩, ?_, ?_⟩
  · exact (far_iff "d").mp (targets ▸ by decide)
  · exact fun far => absurd ((far_iff "b").mpr far) (targets ▸ by decide)

theorem isFar_of_hops {limit : Int} {n : Nat} (differ : id ≠ t) (many : 2 ≤ n)
    (hops : (g.path id t (some (.whole limit))).1.map (Option.map (·.hops)) = .ok (some n)) :
    g.IsFar id t limit := by
  obtain ⟨found, answer, same⟩ := map_eq_ok.mp hops
  obtain ⟨p, rfl, rfl⟩ := Option.map_eq_some_iff.mp same
  exact ⟨differ, p, answer, many⟩

/-- An entity two hops away is not told of when the factor for a hop is beyond the range of numbers,
although a strength is brought into the range from zero to one. -/
theorem indirect_refuses_boundless : ∃ g : RelationshipGraph Float, Reachable g ∧
    g.IsFar "a" "c" 3 ∧
    Sample.shown (g.indirect "a" Sample.three Sample.noon) = .error .numberTooLarge := by
  obtain ⟨g, hg⟩ : ∃ g, create Sample.boundless Sample.noon = .ok g := ⟨_, rfl⟩
  refine ⟨_, Reachable.run Sample.square (.created hg), ?_, ?_⟩
  · refine isFar_of_hops (by decide) (Nat.le_refl 2) ?_
    cases hg
    decide +kernel
  · cases hg
    decide +kernel

end EntityRules.RelationshipGraph
