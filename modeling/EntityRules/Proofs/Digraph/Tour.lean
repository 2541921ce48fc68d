import EntityRules.Digraph
import Mathlib.Data.List.Chain
import Mathlib.Data.List.TakeWhile
import Mathlib.Logic.Relation

/-! Depth-first tours, step by step: what is left to do is laid out along the path. -/

namespace EntityRules.Digraph

variable {V : Type} {g : Digraph V}

/-- There is an edge from one node to the other. -/
def Leads (g : Digraph V) (u v : V) : Prop := v ∈ g.next u

/-- The other node is reached over any number of edges. -/
def Reaches (g : Digraph V) : V → V → Prop := Relation.ReflTransGen g.Leads

/-- The two nodes reach each other. -/
def Mutual (g : Digraph V) (u v : V) : Prop := g.Reaches u v ∧ g.Reaches v u

/-- Edges lead to nodes of the graph only. -/
def Closed (g : Digraph V) : Prop := ∀ ⦃u v⦄, g.Leads u v → v ∈ g.nodes

theorem Reaches.refl (v : V) : g.Reaches v v := Relation.ReflTransGen.refl

theorem Reaches.trans {u v w : V} (h : g.Reaches u v) (h' : g.Reaches v w) : g.Reaches u w :=
  Relation.ReflTransGen.trans h h'

theorem Leads.reaches {u v : V} (h : g.Leads u v) : g.Reaches u v := Relation.ReflTransGen.single h

/-- What a step does not leave is not left at all. -/
theorem Reaches.mem_of_forall {P : V → Prop} {u v : V} (h : g.Reaches u v) (hu : P u)
    (step : ∀ a b, P a → g.Leads a b → P b) : P v := by
  induction h with
  | refl => exact hu
  | tail _ last ih => exact step _ _ ih last

theorem Mutual.refl (v : V) : g.Mutual v v := ⟨.refl v, .refl v⟩

theorem Mutual.symm {u v : V} (h : g.Mutual u v) : g.Mutual v u := ⟨h.2, h.1⟩

theorem Mutual.trans {u v w : V} (h : g.Mutual u v) (h' : g.Mutual v w) : g.Mutual u w :=
  ⟨h.1.trans h'.1, h'.2.trans h.2⟩

/-- Whatever reaches another node and is reached from it lies in the graph. -/
theorem Mutual.mem_nodes (closed : g.Closed) {u v : V} (h : g.Mutual u v) (differ : u ≠ v) :
    u ∈ g.nodes := by
  rcases Relation.ReflTransGen.cases_tail h.2 with same | ⟨w, -, last⟩
  · exact absurd same differ
  · exact closed last

/-- Whoever reaches another node and is reached from it has a successor of that kind. -/
theorem Mutual.exists_leads {u v : V} (h : g.Mutual u v) (differ : u ≠ v) :
    ∃ w, g.Leads u w ∧ g.Mutual u w := by
  rcases Relation.ReflTransGen.cases_head h.1 with same | ⟨w, edge, rest⟩
  · exact absurd same differ
  · exact ⟨w, edge, edge.reaches, rest.trans h.2⟩

section

variable {visited : List V} {todo : List (Pending V)} {v w : V}

/-- Whatever has been visited or is still to be arrived at stays so. -/
theorem due_enter (h : w ∈ visited ∨ .arrive w ∈ Pending.arrive v :: todo) :
    w ∈ v :: visited ∨ .arrive w ∈ (g.next v).map .arrive ++ .leave v :: todo := by
  rcases h with old | pending
  · exact .inl (List.mem_cons_of_mem _ old)
  · rcases List.mem_cons.mp pending with same | later
    · cases same
      exact .inl List.mem_cons_self
    · exact .inr (List.mem_append_right _ (List.mem_cons_of_mem _ later))

theorem due_again (old : v ∈ visited) (h : w ∈ visited ∨ .arrive w ∈ Pending.arrive v :: todo) :
    w ∈ visited ∨ .arrive w ∈ todo := by
  rcases h with seen | pending
  · exact .inl seen
  · rcases List.mem_cons.mp pending with same | later
    · cases same
      exact .inl old
    · exact .inr later

theorem due_leave (h : w ∈ visited ∨ .arrive w ∈ Pending.leave v :: todo) :
    w ∈ visited ∨ .arrive w ∈ todo :=
  h.imp_right fun pending => by simpa using pending

end

/-- What is left to do agrees with the path of a tour, the latest node first. Every node of the path
waits for some of its successors, and of the others something is known, which may depend on the
path below the node. Between its starts the tour waits for the rest of these. -/
inductive Awaits (g : Digraph V) (starts : List V) (known : List V → V → V → Prop) :
    List V → List (Pending V) → Prop where
  | start {vs : List V} : (∀ v ∈ vs, v ∈ starts) → Awaits g starts known [] (vs.map .arrive)
  | inside {v : V} {path us : List V} {todo : List (Pending V)} :
    (∀ u ∈ us, g.Leads v u) → (∀ u, g.Leads v u → u ∈ us ∨ known path v u) →
    Awaits g starts known path todo →
    Awaits g starts known (v :: path) (us.map .arrive ++ .leave v :: todo)

namespace Awaits

variable {starts path : List V} {known known' : List V → V → V → Prop} {todo : List (Pending V)}
  {u v : V}

theorem of_done (h : Awaits g starts known path []) : path = [] := by
  generalize e : ([] : List (Pending V)) = todo at h
  cases h with
  | start _ => rfl
  | inside _ _ _ => simp at e

/-- With an empty path the tour is between its starts. -/
theorem of_arrive_start (h : Awaits g starts known [] (.arrive u :: todo)) :
    u ∈ starts ∧ Awaits g starts known [] todo := by
  generalize e : Pending.arrive u :: todo = todo' at h
  cases h with
  | @start vs early =>
    cases vs with
    | nil => simp at e
    | cons v vs =>
      obtain ⟨rfl, rfl⟩ : u = v ∧ todo = vs.map .arrive := by simpa using e
      obtain ⟨first, others⟩ := List.forall_mem_cons.mp early
      exact ⟨first, .start others⟩

/-- The tour looks at a successor of the latest node. It goes on when something is known of it. -/
theorem of_arrive (h : Awaits g starts known (v :: path) (.arrive u :: todo)) :
    g.Leads v u ∧ (known path v u → Awaits g starts known (v :: path) todo) := by
  generalize e : Pending.arrive u :: todo = todo' at h
  cases h with
  | @inside _ _ us rest ahead looked below =>
    cases us with
    | nil => simp at e
    | cons w us =>
      obtain ⟨rfl, rfl⟩ : u = w ∧ todo = us.map .arrive ++ .leave v :: rest := by simpa using e
      obtain ⟨first, others⟩ := List.forall_mem_cons.mp ahead
      refine ⟨first, fun now => .inside others (fun x edge => ?_) below⟩
      rcases looked x edge with later | before
      · rcases List.mem_cons.mp later with rfl | later
        · exact .inr now
        · exact .inl later
      · exact .inr before

theorem leads {below : List V} (h : Awaits g starts known path (.arrive u :: todo))
    (top : path = v :: below) : g.Leads v u :=
  (top ▸ h).of_arrive.1

/-- The tour has looked at a node that it arrived at. -/
theorem of_looked (h : Awaits g starts known path (.arrive u :: todo))
    (now : ∀ v below, path = v :: below → known below v u) : Awaits g starts known path todo := by
  cases path with
  | nil => exact h.of_arrive_start.2
  | cons v below => exact h.of_arrive.2 (now v below rfl)

theorem of_leave (h : Awaits g starts known path (.leave v :: todo)) :
    ∃ below, path = v :: below ∧ (∀ u, g.Leads v u → known below v u) ∧
      Awaits g starts known below todo := by
  generalize e : Pending.leave v :: todo = todo' at h
  cases h with
  | @start vs _ => cases vs <;> simp at e
  | @inside w below us rest ahead looked awaits =>
    cases us with
    | cons x us => simp at e
    | nil =>
      obtain ⟨rfl, rfl⟩ : v = w ∧ todo = rest := by simpa using e
      exact ⟨below, rfl, fun u edge => (looked u edge).resolve_left List.not_mem_nil, awaits⟩

theorem enter (h : Awaits g starts known path todo) (v : V) :
    Awaits g starts known (v :: path) ((g.next v).map .arrive ++ .leave v :: todo) :=
  .inside (fun _ hu => hu) (fun _ hu => .inl hu) h

/-- What is known may be replaced by what follows from it at the nodes of the path. -/
theorem mono (h : Awaits g starts known path todo)
    (follows : ∀ below v u, v :: below <:+ path → known below v u → known' below v u) :
    Awaits g starts known' path todo := by
  induction h with
  | start early => exact .start early
  | @inside v path us todo ahead looked _ ih =>
    refine .inside ahead (fun u edge => ?_) (ih fun below w u suffix => ?_)
    · exact (looked u edge).imp_right (follows path v u (List.suffix_refl _))
    · exact follows below w u (suffix.trans (List.suffix_cons v path))

theorem mem_nodes (closed : g.Closed) (inside : ∀ v ∈ starts, v ∈ g.nodes)
    (h : Awaits g starts known path (.arrive u :: todo)) :
    u ∈ g.nodes := by
  cases path with
  | nil => exact inside u h.of_arrive_start.1
  | cons v path => exact closed h.of_arrive.1

end Awaits

variable [DecidableEq V]

/-- A list up to the first place of a node. -/
theorem takeWhile_ne {v : V} {front : List V} (back : List V) (new : v ∉ front) :
    (front ++ v :: back).takeWhile (· ≠ v) = front := by
  rw [List.takeWhile_append_of_pos fun w hw => by simpa using fun same : w = v => new (same ▸ hw)]
  simp

theorem dropWhile_ne {v : V} {front : List V} (back : List V) (new : v ∉ front) :
    (front ++ v :: back).dropWhile (· ≠ v) = v :: back := by
  rw [List.dropWhile_append_of_pos fun w hw => by simpa using fun same : w = v => new (same ▸ hw)]
  simp

/-- What every event of a tour keeps, where it is noted, holds at the end of the tour. -/
theorem foldl_tourFrom {σ : Type} {f : σ → TourEvent V → σ}
    {P : List V → List (Pending V) → σ → Prop}
    (leave : ∀ {visited v todo s}, P visited (.leave v :: todo) s →
      P visited todo (f s (.leave v)))
    (again : ∀ {visited v todo s}, v ∈ visited → P visited (.arrive v :: todo) s →
      P visited todo (f s (.again v)))
    (enter : ∀ {visited v todo s}, v ∉ visited → P visited (.arrive v :: todo) s →
      P (v :: visited) ((g.next v).map .arrive ++ .leave v :: todo) (f s (.enter v)))
    (inside : ∀ {visited v todo s}, P visited (.arrive v :: todo) s → v ∈ g.nodes)
    {visited : List V} {todo : List (Pending V)} {s : σ} (h : P visited todo s) :
    ∃ visited', P visited' [] ((g.tourFrom visited todo).foldl f s) := by
  induction visited, todo using tourFrom.induct g generalizing s with
  | case1 visited =>
    rw [tourFrom]
    exact ⟨visited, h⟩
  | case2 visited v todo ih =>
    rw [tourFrom, List.foldl_cons]
    exact ih (leave h)
  | case3 visited v todo old ih =>
    rw [tourFrom, if_pos old, List.foldl_cons]
    exact ih (again old h)
  | case4 visited v todo new node ih =>
    simp only [List.map_subtype, List.unattach_attach] at ih
    rw [tourFrom, if_neg new, if_pos node, List.foldl_cons]
    exact ih (enter new h)
  | case5 visited v todo new outside => exact absurd (inside h) outside

end EntityRules.Digraph
