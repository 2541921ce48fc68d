import EntityRules.Digraph
import EntityRules.Graph

/-! Searches over the graph of relationships. -/

namespace EntityRules.RelationshipGraph

variable {α : Type}

/-- The strength from which on an edge holds a group together, when none is asked for. -/
def groupStrength : Float := 0.7

/-- The depth of a subgraph when none is asked for. -/
def subgraphDepth : Int := 2

/-- The edges from an entity to other ones. -/
def departing (g : RelationshipGraph α) (id : String) : List (Relationship α) :=
  (g.outgoingOf id).filter (!·.isSelfReference)

/-- Whatever an edge leads to is a node. -/
theorem target_mem_nodes (g : RelationshipGraph α) {id : String} {r : Relationship α}
    (h : r ∈ g.departing id) : r.target ∈ g.nodes := by
  have h : r ∈ g.outgoingOf id := (List.mem_filter.mp h).1
  unfold outgoingOf Members.get? at h
  cases found : g.outgoing.find? (·.1 = id) with
  | none => simp [found] at h
  | some m =>
    have hr : r ∈ m.2 := by simpa [found] using h
    have hm : m ∈ g.outgoing := List.mem_of_find?_eq_some found
    refine List.mem_eraseDups.mpr (List.mem_append_left _ (List.mem_flatMap.mpr ⟨m, hm, ?_⟩))
    exact List.mem_cons_of_mem _ (List.mem_map_of_mem hr)

/-- The nodes, linked by the edges of a kind. -/
def linked (g : RelationshipGraph α) (keep : Relationship α → Bool) : Digraph String :=
  { nodes := g.nodes, next := fun id => ((g.departing id).filter keep).map (·.target) }

/-- The nodes, linked by the edges of dependency. -/
def dependencies (g : RelationshipGraph α) : Digraph String := g.linked (·.type.isDependency)

/-- An entity and all that it depends on, in depth-first order. -/
def dependencyChain (g : RelationshipGraph α) (id : String) : List String :=
  if g.has id then g.dependencies.reachable id else []

/-- The cycles of dependencies that a depth-first tour from an entity closes. -/
def dependencyCycles (g : RelationshipGraph α) (id : String) : List (List String) :=
  if g.has id then g.dependencies.cyclesFrom id else []

/-- The groups of entities that reach each other. -/
def components (g : RelationshipGraph α) : List (List String) :=
  (g.linked fun _ => true).components

/-- The edges of an entity as it sees them, without those to itself. -/
def surrounding (g : RelationshipGraph α) (id : String) : List (Relationship α) :=
  (g.relationshipsOf id true).filter (!·.isSelfReference)

/-- The nodes, linked by edges in either direction. -/
def neighbourhood (g : RelationshipGraph α) : Digraph String :=
  { nodes := g.nodes, next := fun id => (g.surrounding id).map (·.target) }

/-- What lies around an entity, as a snapshot: every node that a depth-first search finds within a
depth, with its edges. -/
def subgraph (g : RelationshipGraph α) (center : String) (depth : Int) (now : Moment) :
    GraphSnapshot α :=
  let found :=
    if g.has center then g.neighbourhood.enteredWithin depth [] [(center, 0)] else []
  let relationships := found.filterMap fun id =>
    let edges := g.surrounding id
    if edges.isEmpty then none else some (id, edges)
  { relationships, nodes := []
    metadata := { GraphMetadata.fresh now with
      totalNodes := found.length
      totalEdges := (edgesOf relationships).length } }

/-- The edges at the ends of the trails that lead on from a trail without meeting a node twice,
each with the trail before it. Trails are written from their end to their start and taken in
depth-first order. -/
def trailsFrom (g : RelationshipGraph α) : Nat → List String →
    List (Relationship α × List String)
  | _, [] => []
  | 0, _ => []
  | steps + 1, v :: trail =>
    (g.departing v).flatMap fun r =>
      if r.target ∈ v :: trail then []
      else (r, v :: trail) :: g.trailsFrom steps (r.target :: v :: trail)

/-- Keeps what leads to targets not reported before. -/
def firstArrivals (reported : List String) :
    List (Relationship α × List String) → List (Relationship α × List String)
  | [] => []
  | (r, trail) :: rest =>
    if r.target ∈ reported then firstArrivals reported rest
    else (r, trail) :: firstArrivals (r.target :: reported) rest

variable [Scalar α]

/-- The groups of entities that reach each other along edges of some strength. -/
def groups (g : RelationshipGraph α) (minStrength : α) : List (List String) :=
  (g.linked fun r => Scalar.le minStrength r.strength).components

/-- The relationship of an entity to one that a trail leads to. It is as strong as the last edge,
less a factor for every further hop. -/
def indirectAlong (g : RelationshipGraph α) (id : String) (now : Moment)
    (last : Relationship α) (trail : List String) : Except ExtentTrouble (Relationship α) :=
  (g.options.strengthDecay.power (trail.length - 1)).map fun decay =>
    { id := "indirect-" ++ id ++ "-" ++ last.target
      source := id, target := last.target, type := .sequence
      strength := Scalar.clamp (last.strength * decay)
      bidirectional := false, conditions := none
      metadata := .fresh now (some ("Indirect relationship through " ++ toString trail.length ++
        " entities")) }

/-- The relationships to entities that are two or more hops away, within some number of steps, each
found along the first trail to it. -/
def indirectWithin (g : RelationshipGraph α) (id : String) (steps : Nat) (now : Moment) :
    Except ExtentTrouble (List (Relationship α)) :=
  let direct := (g.departing id).map (·.target)
  let trails := (g.trailsFrom steps [id]).filter fun t => t.2.length > 1
  (firstArrivals direct trails).mapM fun t => g.indirectAlong id now t.1 t.2

/-- The relationships to entities that are two or more hops away, within a depth. -/
def indirect (g : RelationshipGraph α) (id : String) (depth : Option (Extent Float))
    (now : Moment) : Except ExtentTrouble (List (Relationship α)) :=
  ((depth.getD g.options.indirectDepth).bound Extent.notAtMost).bind fun bound =>
    g.indirectWithin id bound.ceiling.toNat now

/-- A way that a search has found. -/
structure Route (α : Type) where
  /-- The entity that the way has come to. -/
  last : String
  /-- The entities before it, the latest one first. -/
  before : List String
  /-- The product of the strengths along the way. -/
  strength : α

/-- The way with one more edge at its end. -/
def Route.along (w : Route α) (r : Relationship α) : Route α :=
  { last := r.target, before := w.last :: w.before, strength := w.strength * r.strength }

def Route.path (w : Route α) : GraphPath α :=
  { nodes := (w.last :: w.before).reverse, strength := w.strength, hops := w.before.length
    type := .ofHops w.before.length }

/-- Where a search stands when edges have been followed. -/
inductive Frontier (α : Type) where
  | arrived (way : Route α)
  | onward (seen : List String) (queue : List (Route α))

/-- Follows edges from the end of a way to entities that were not seen before, until one of them is
the goal. -/
def Route.follow (w : Route α) (goal : String) (seen : List String) (queue : List (Route α)) :
    List (Relationship α) → Frontier α
  | [] => .onward seen queue
  | r :: rest =>
    if r.target ∈ seen then w.follow goal seen queue rest
    else if r.target = goal then .arrived (w.along r)
    else w.follow goal (r.target :: seen) (queue ++ [w.along r]) rest

/-- Whatever is put into the queue has not been seen before. -/
theorem Route.length_follow {w : Route α} {goal : String} {nodes seen seen' : List String}
    {queue queue' : List (Route α)} {edges : List (Relationship α)}
    (known : ∀ r ∈ edges, r.target ∈ nodes)
    (h : w.follow goal seen queue edges = .onward seen' queue') :
    (nodes.filter (· ∉ seen')).length + queue'.length ≤
      (nodes.filter (· ∉ seen)).length + queue.length := by
  induction edges generalizing seen queue with
  | nil =>
    obtain ⟨rfl, rfl⟩ := Frontier.onward.inj h
    exact Nat.le_refl _
  | cons r rest ih =>
    obtain ⟨hr, known⟩ := List.forall_mem_cons.mp known
    rw [Route.follow] at h
    split at h
    · exact ih known h
    · split at h
      · cases h
      · have := ih known h
        have := Digraph.length_filter_cons_lt hr ‹r.target ∉ seen›
        simp only [List.length_append, List.length_singleton] at *
        omega

/-- Searches for a way to a goal with a limited number of hops, the ways in a queue being followed
in turn. -/
def searchFrom (g : RelationshipGraph α) (goal : String) (limit : Nat) (seen : List String) :
    List (Route α) → Option (Route α)
  | [] => none
  | w :: queue =>
    if limit ≤ w.before.length then g.searchFrom goal limit seen queue
    else
      match _followed : w.follow goal seen queue (g.departing w.last) with
      | .arrived way => some way
      | .onward seen queue => g.searchFrom goal limit seen queue
termination_by queue => (g.nodes.filter (· ∉ seen)).length + queue.length
decreasing_by
  · simp
  · have := Route.length_follow (fun _ => g.target_mem_nodes) _followed
    simp only [List.length_cons]
    omega

section

variable (g : RelationshipGraph α) {goal : String} {limit : Nat} {seen seen' : List String}
  {w way : Route α} {queue queue' : List (Route α)}

theorem searchFrom_nil : g.searchFrom goal limit seen [] = none := by rw [searchFrom]

theorem searchFrom_full (h : limit ≤ w.before.length) :
    g.searchFrom goal limit seen (w :: queue) = g.searchFrom goal limit seen queue := by
  rw [searchFrom, if_pos h]

theorem searchFrom_arrived (h : ¬limit ≤ w.before.length)
    (followed : w.follow goal seen queue (g.departing w.last) = .arrived way) :
    g.searchFrom goal limit seen (w :: queue) = some way := by
  rw [searchFrom, if_neg h]
  split <;> simp_all

theorem searchFrom_onward (h : ¬limit ≤ w.before.length)
    (followed : w.follow goal seen queue (g.departing w.last) = .onward seen' queue') :
    g.searchFrom goal limit seen (w :: queue) = g.searchFrom goal limit seen' queue' := by
  rw [searchFrom, if_neg h]
  split <;> simp_all

end

/-- Searches for a shortest path between two entities. -/
def searchPath? (g : RelationshipGraph α) (source target : String) (hops : Nat) :
    Option (GraphPath α) :=
  if g.has source && g.has target then
    (g.searchFrom target hops [source] [{ last := source, before := [], strength := 1 }]).map
      (·.path)
  else none

/-- A shortest path between two entities within a bound. Paths that were found are remembered; an
entity has a path to itself even when it is not in the graph. -/
def pathWithin (g : RelationshipGraph α) (source target : String) (bound : Bound) :
    Option (GraphPath α) × RelationshipGraph α :=
  if source = target then (some (.trivial source), g)
  else
    match g.paths.get (source, target, bound) 0 with
    | (some found, paths) => (some found, { g with paths })
    | (none, paths) =>
      match g.searchPath? source target bound.ceiling.toNat with
      | some found =>
        (some found, { g with paths := paths.store (source, target, bound) found none 0 })
      | none => (none, { g with paths })

/-- What becomes of a search within something that is no number. The look-up is counted, unless the
value is no part of a key; it fails when there are two nodes to search between. -/
def pathWithout (g : RelationshipGraph α) (source target : String) (type : String)
    (why : ExtentTrouble) :
    Except ExtentTrouble (Option (GraphPath α)) × RelationshipGraph α :=
  if source = target then (.ok (some (.trivial source)), g)
  else if type ∈ ["list", "dict"] then (.error (.notKey type), g)
  else
    (if g.has source && g.has target then .error why else .ok none,
      { g with paths := g.paths.miss })

/-- A shortest path between two entities within a number of hops. -/
def path (g : RelationshipGraph α) (source target : String) (hops : Option (Extent Float)) :
    Except ExtentTrouble (Option (GraphPath α)) × RelationshipGraph α :=
  let hops := hops.getD g.options.pathHops
  match hops.bound Extent.notReached with
  | .ok bound =>
    let (found, g) := g.pathWithin source target bound
    (.ok found, g)
  | .error why => g.pathWithout source target hops.typeName why

end EntityRules.RelationshipGraph
