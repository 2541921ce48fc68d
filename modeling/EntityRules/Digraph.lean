/-! Finite directed graphs and the searches over them, each in the order of the successors. -/

namespace EntityRules

/-- A finite directed graph. What a node leads to is a list, and may name a node twice. -/
structure Digraph (V : Type) where
  nodes : List V
  next : V → List V

namespace Digraph

variable {V : Type}

/-- The sum of the weights of some nodes. -/
def total (weight : V → Nat) : List V → Nat
  | [] => 0
  | v :: l => weight v + total weight l

theorem total_one (l : List V) : total (fun _ => 1) l = l.length := by
  induction l with
  | nil => rfl
  | cons v l ih => rw [total, ih, List.length_cons, Nat.add_comm]

variable [DecidableEq V]

/-- The nodes that are not among those visited. -/
def unvisited (g : Digraph V) (visited : List V) : List V := g.nodes.filter (· ∉ visited)

theorem total_filter_cons_le (weight : V → Nat) (l visited : List V) (v : V) :
    total weight (l.filter (· ∉ v :: visited)) ≤ total weight (l.filter (· ∉ visited)) := by
  induction l with
  | nil => exact Nat.le_refl _
  | cons a l ih =>
    simp only [List.filter_cons]
    by_cases h : a ∈ visited <;> by_cases hv : a = v <;> simp_all [total]; omega

theorem total_filter_cons_lt (weight : V → Nat) {l visited : List V} {v : V} (hv : v ∈ l)
    (hn : v ∉ visited) :
    total weight (l.filter (· ∉ v :: visited)) + weight v ≤
      total weight (l.filter (· ∉ visited)) := by
  induction l with
  | nil => simp at hv
  | cons a l ih =>
    by_cases ha : a = v
    · subst ha
      have := total_filter_cons_le weight l visited a
      rw [List.filter_cons_of_neg (by simp), List.filter_cons_of_pos (by simpa using hn), total]
      omega
    · have hl : v ∈ l := by simpa [Ne.symm ha] using hv
      have := ih hl
      by_cases h : a ∈ visited <;> simp_all [total]; omega

theorem length_filter_cons_lt {l visited : List V} {v : V} (hv : v ∈ l) (hn : v ∉ visited) :
    (l.filter (· ∉ v :: visited)).length < (l.filter (· ∉ visited)).length := by
  have := total_filter_cons_lt (fun _ => 1) hv hn
  simp only [total_one] at this
  exact this

/-- What may come of the nodes that are not among those visited: each of them may be entered and
left, with a look at everything that it leads to. -/
def outstanding (g : Digraph V) (visited : List V) : Nat :=
  total (fun v => (g.next v).length + 2) (g.unvisited visited)

theorem outstanding_cons (g : Digraph V) {visited : List V} {v : V} (hv : v ∈ g.nodes)
    (hn : v ∉ visited) :
    g.outstanding (v :: visited) + ((g.next v).length + 2) ≤ g.outstanding visited :=
  total_filter_cons_lt _ hv hn

/-- What happens on a depth-first tour: a node is entered for the first time, a node is met again,
or a node is left after everything behind it has been seen. -/
inductive TourEvent (V : Type) where
  | enter (v : V)
  | again (v : V)
  | leave (v : V)
deriving Repr

/-- What is left to do on a tour: arrive at a node, or leave one. -/
inductive Pending (V : Type) where
  | arrive (v : V)
  | leave (v : V)

/-- The events of a depth-first tour. A node outside the graph is passed over. -/
def tourFrom (g : Digraph V) (visited : List V) : List (Pending V) → List (TourEvent V)
  | [] => []
  | .leave v :: rest => .leave v :: g.tourFrom visited rest
  | .arrive v :: rest =>
    if v ∈ visited then .again v :: g.tourFrom visited rest
    else if v ∈ g.nodes then
      .enter v ::
        g.tourFrom (v :: visited) ((g.next v).map .arrive ++ .leave v :: rest)
    else g.tourFrom visited rest
termination_by todo => g.outstanding visited + todo.length
decreasing_by
  · simp
  · simp
  · have := g.outstanding_cons ‹v ∈ g.nodes› ‹v ∉ visited›
    simp only [List.length_append, List.length_map, List.length_attach, List.length_cons]
    omega
  · simp

/-- A tour that starts at each of some nodes in turn. -/
def tour (g : Digraph V) (starts : List V) : List (TourEvent V) :=
  g.tourFrom [] (starts.map .arrive)

/-- The nodes of a tour in the order in which they are entered. -/
def entered : List (TourEvent V) → List V
  | [] => []
  | .enter v :: rest => v :: entered rest
  | _ :: rest => entered rest

/-- What can be reached from a node, itself first, in depth-first order. -/
def reachable (g : Digraph V) (v : V) : List V := entered (g.tour [v])

/-- What a search for cycles has noted on a tour. -/
structure CycleNotes (V : Type) where
  /-- The nodes that have been entered and not left, the latest one first. -/
  path : List V
  cycles : List (List V)

/-- The cycle that is closed when the tour stands on the latest node of the path and meets a node of
the path again: from that node along the path and back to it. -/
def CycleNotes.cycle (s : CycleNotes V) (v : V) : List V :=
  v :: (s.path.takeWhile (· ≠ v)).reverse ++ [v]

/-- Notes what happens next on a tour. A node of the path that is met again closes a cycle. -/
def CycleNotes.note (s : CycleNotes V) : TourEvent V → CycleNotes V
  | .enter v => { s with path := v :: s.path }
  | .leave _ => { s with path := s.path.tail }
  | .again v => if v ∈ s.path then { s with cycles := s.cycles ++ [s.cycle v] } else s

/-- The cycles that a depth-first tour from a node closes. -/
def cyclesFrom (g : Digraph V) (v : V) : List (List V) :=
  ((g.tour [v]).foldl CycleNotes.note { path := [], cycles := [] }).cycles

/-- What a search for strongly connected components has noted on a tour. -/
structure ComponentNotes (V : Type) where
  /-- How many nodes had been entered before a node was. -/
  index : V → Nat
  /-- The least index of an open node that a node is known to lead to. -/
  low : V → Nat
  count : Nat
  /-- The nodes that have been entered and not left, the latest one first. -/
  path : List V
  /-- The nodes whose component is not closed, the latest one first. -/
  stack : List V
  components : List (List V)

/-- A table with one more entry. -/
def assign (table : V → Nat) (v : V) (n : Nat) : V → Nat := fun w => if w = v then n else table w

namespace ComponentNotes

/-- The notes before a tour. -/
def start : ComponentNotes V :=
  { index := fun _ => 0, low := fun _ => 0, count := 0, path := [], stack := [], components := [] }

/-- The node on which the tour stands leads to what has an index. -/
def lower (s : ComponentNotes V) (n : Nat) : ComponentNotes V :=
  match s.path with
  | [] => s
  | v :: _ => { s with low := assign s.low v (min (s.low v) n) }

/-- Closes the component of a node and of all that lies above it. A single node is not reported. -/
def close (s : ComponentNotes V) (v : V) : ComponentNotes V :=
  let members := s.stack.takeWhile (· ≠ v) ++ [v]
  { s with
    stack := (s.stack.dropWhile (· ≠ v)).tail
    components := if 1 < members.length then s.components ++ [members] else s.components }

/-- Notes what happens next on a tour. A component is closed when the tour leaves a node that leads
to no open node entered before it. -/
def note (s : ComponentNotes V) : TourEvent V → ComponentNotes V
  | .enter v =>
    { s with
      index := assign s.index v s.count, low := assign s.low v s.count, count := s.count + 1
      path := v :: s.path, stack := v :: s.stack }
  | .again v => if v ∈ s.stack then s.lower (s.index v) else s
  | .leave v =>
    let s := { s with path := s.path.tail }.lower (s.low v)
    if s.low v = s.index v then s.close v else s

end ComponentNotes

/-- The strongly connected components with more than one member, found on a tour of the whole graph.
A component stands where the tour leaves the member that it entered first; members stand in reverse
order of entry. -/
def components (g : Digraph V) : List (List V) :=
  ((g.tour g.nodes).foldl ComponentNotes.note .start).components

/-- The nodes that a depth-first tour enters when it turns back at a depth. A node is entered at the
depth at which it is met first, which need not be its distance. -/
def enteredWithin (g : Digraph V) (depth : Int) (visited : List V) : List (V × Nat) → List V
  | [] => []
  | (v, level) :: rest =>
    if v ∈ g.nodes ∧ v ∉ visited ∧ (level : Int) ≤ depth then
      v :: g.enteredWithin depth (v :: visited) ((g.next v).map (·, level + 1) ++ rest)
    else g.enteredWithin depth visited rest
termination_by todo => g.outstanding visited + todo.length
decreasing_by
  · rename_i h
    have := g.outstanding_cons h.1 h.2.1
    simp only [List.length_append, List.length_map, List.length_attach, List.length_cons]
    omega
  · simp

end Digraph

end EntityRules
