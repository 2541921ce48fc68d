import EntityRules.Proofs.Digraph.Tour
import Mathlib.Data.List.Nodup

/-! The recursive depth-first visit enters the nodes of a tour in the same order. -/

namespace EntityRules.Digraph

variable {V : Type} {next : V → List V} {order mid order' : List V} {us vs front : List V}
  {u v x : V}

/-- The visit of some nodes in turn, with all nodes entered before it and all nodes entered after
it, in the order in which they were entered. -/
inductive Visits (next : V → List V) : List V → List V → List V → Prop where
  | done {order : List V} : Visits next order [] order
  | again {order vs order' : List V} {v : V} :
    v ∈ order → Visits next order vs order' → Visits next order (v :: vs) order'
  | enter {order vs mid order' : List V} {v : V} :
    v ∉ order → Visits next (order ++ [v]) (next v) mid → Visits next mid vs order' →
    Visits next order (v :: vs) order'

/-- A node of a growing list is older than the node after a prefix of it, is that node, or comes
behind it. -/
theorem prefix_of_entered (hx : front ++ [x] <+: mid) (hv : order ++ [v] <+: mid) :
    front ++ [x] <+: order ∨ x = v ∨ order ++ [v] <+: front := by
  rcases List.prefix_or_prefix_of_prefix hx hv with early | late
  · rcases List.prefix_concat_iff.mp early with same | before
    · exact .inr (.inl (by simpa using (List.append_inj' same rfl).2))
    · exact .inl before
  · rcases List.prefix_concat_iff.mp late with same | before
    · exact .inr (.inl (by simpa using (List.append_inj' same rfl).2.symm))
    · exact .inr (.inr before)

namespace Visits

/-- The order of entry is determined. -/
theorem unique (h : Visits next order vs mid) (h' : Visits next order vs order') :
    order' = mid := by
  induction h generalizing order' with
  | done =>
    cases h'
    rfl
  | again old _ ih =>
    cases h' with
    | again _ rest => exact ih rest
    | enter new _ _ => exact absurd old new
  | enter new _ _ ihInner ihRest =>
    cases h' with
    | again old _ => exact absurd old new
    | enter _ inner rest => exact ihRest (ihInner inner ▸ rest)

/-- Nodes can be visited in two goes. -/
theorem of_append (h : Visits next order (us ++ vs) order') :
    ∃ mid, Visits next order us mid ∧ Visits next mid vs order' := by
  induction us generalizing order with
  | nil => exact ⟨order, .done, h⟩
  | cons u us ih =>
    cases h with
    | again old rest =>
      obtain ⟨mid, first, second⟩ := ih rest
      exact ⟨mid, .again old first, second⟩
    | enter new inner rest =>
      obtain ⟨mid, first, second⟩ := ih rest
      exact ⟨mid, .enter new inner first, second⟩

theorem isPrefix (h : Visits next order vs order') : order <+: order' := by
  induction h with
  | done => exact List.prefix_refl _
  | again _ _ ih => exact ih
  | enter _ _ _ ihInner ihRest => exact (List.prefix_append _ _).trans (ihInner.trans ihRest)

theorem nodup (h : Visits next order vs order') (nodup : order.Nodup) : order'.Nodup := by
  induction h with
  | done => exact nodup
  | again _ _ ih => exact ih nodup
  | enter new _ _ ihInner ihRest =>
    exact ihRest (ihInner (List.concat_eq_append ▸ nodup.concat new))

theorem visited (h : Visits next order vs order') (hv : v ∈ vs) : v ∈ order' := by
  induction h with
  | done => cases hv
  | again old rest ih =>
    rcases List.mem_cons.mp hv with rfl | hv
    · exact rest.isPrefix.subset old
    · exact ih hv
  | enter _ inner rest _ ihRest =>
    rcases List.mem_cons.mp hv with rfl | hv
    · exact (inner.isPrefix.trans rest.isPrefix).subset (List.mem_append_right _ (by simp))
    · exact ihRest hv

/-- Whatever a node leads to that is entered on a visit has been entered at the end of the visit. -/
theorem looked (h : Visits next order vs order') (hu : u ∈ order') (new : u ∉ order)
    (edge : v ∈ next u) : v ∈ order' := by
  induction h with
  | done => exact absurd hu new
  | again _ _ ih => exact ih hu new
  | @enter order vs mid order' w _ inner rest ihInner ihRest =>
    by_cases within : u ∈ mid
    · refine rest.isPrefix.subset ?_
      by_cases same : u = w
      · exact inner.visited (same ▸ edge)
      · exact ihInner within (by simp [new, same])
    · exact ihRest hu within

/-- A node is entered because it was to be visited or because a node entered before it leads to
it. -/
theorem of_prefix (h : Visits next order vs order') (hx : front ++ [x] <+: order') :
    front ++ [x] <+: order ∨ x ∈ vs ∨ ∃ y ∈ front, x ∈ next y := by
  induction h with
  | done => exact .inl hx
  | again _ _ ih => exact (ih hx).imp_right (Or.imp_left (List.mem_cons_of_mem _))
  | @enter order vs mid order' v _ inner _ ihInner ihRest =>
    rcases ihRest hx with within | later | behind
    · rcases prefix_of_entered within inner.isPrefix with early | rfl | before
      · exact .inl early
      · exact .inr (.inl List.mem_cons_self)
      · rcases ihInner within with early | ahead | behind
        · have := before.length_le
          have := early.length_le
          simp only [List.length_append, List.length_singleton] at *
          omega
        · exact .inr (.inr ⟨v, before.subset (by simp), ahead⟩)
        · exact .inr (.inr behind)
    · exact .inr (.inl (List.mem_cons_of_mem _ later))
    · exact .inr (.inr behind)

section

variable {g : Digraph V}

theorem reached (h : Visits g.next order vs order') (hx : x ∈ order') :
    x ∈ order ∨ ∃ v ∈ vs, g.Reaches v x := by
  induction h with
  | done => exact .inl hx
  | again _ _ ih => exact (ih hx).imp_right fun ⟨v, hv, way⟩ => ⟨v, List.mem_cons_of_mem _ hv, way⟩
  | @enter _ _ _ _ v _ _ _ ihInner ihRest =>
    rcases ihRest hx with within | ⟨u, hu, way⟩
    · rcases ihInner within with old | ⟨u, edge, way⟩
      · rcases List.mem_append.mp old with old | same
        · exact .inl old
        · rw [List.mem_singleton.mp same]
          exact .inr ⟨v, List.mem_cons_self, .refl v⟩
      · exact .inr ⟨v, List.mem_cons_self, (Leads.reaches edge).trans way⟩
    · exact .inr ⟨u, List.mem_cons_of_mem _ hu, way⟩

/-- The visit of a single node enters just what the node reaches. -/
theorem mem_iff (h : Visits g.next [] [v] order) : x ∈ order ↔ g.Reaches v x := by
  constructor
  · intro hx
    rcases h.reached hx with old | ⟨u, hu, way⟩
    · cases old
    · exact List.mem_singleton.mp hu ▸ way
  · intro way
    exact way.mem_of_forall (h.visited List.mem_cons_self)
      fun _ _ ha edge => h.looked ha List.not_mem_nil edge

theorem head (h : Visits next [] [v] order) : order.head? = some v := by
  cases h with
  | again old _ => cases old
  | enter _ inner rest =>
    obtain ⟨behind, rfl⟩ := inner.isPrefix.trans rest.isPrefix
    rfl

end

end Visits

variable {g : Digraph V} {visited : List V} {todo : List (Pending V)}

/-- The nodes that a tour is still to arrive at. -/
def arrivals : List (Pending V) → List V
  | [] => []
  | .arrive v :: rest => v :: arrivals rest
  | .leave _ :: rest => arrivals rest

theorem arrivals_arrive (vs : List V) (todo : List (Pending V)) :
    arrivals (vs.map .arrive ++ todo) = vs ++ arrivals todo := by
  induction vs with
  | nil => rfl
  | cons v vs ih => rw [List.map_cons, List.cons_append, arrivals, ih, List.cons_append]

variable [DecidableEq V]

/-- A tour enters the nodes in the order of the visit of what it is to arrive at. -/
theorem visits_tourFrom (closed : g.Closed) (inside : ∀ v ∈ arrivals todo, v ∈ g.nodes)
    (same : ∀ v, v ∈ order ↔ v ∈ visited) :
    Visits g.next order (arrivals todo) (order ++ entered (g.tourFrom visited todo)) := by
  induction visited, todo using tourFrom.induct g generalizing order with
  | case1 visited =>
    rw [tourFrom, entered, List.append_nil]
    exact .done
  | case2 visited v todo ih =>
    rw [tourFrom]
    exact ih inside same
  | case3 visited v todo old ih =>
    obtain ⟨-, inside⟩ := List.forall_mem_cons.mp inside
    rw [tourFrom, if_pos old]
    exact .again ((same v).mpr old) (ih inside same)
  | case4 visited v todo new node ih =>
    obtain ⟨-, inside⟩ := List.forall_mem_cons.mp inside
    simp only [List.map_subtype, List.unattach_attach, arrivals_arrive, arrivals] at ih
    have here : ∀ u, u ∈ order ++ [v] ↔ u ∈ v :: visited := by simp [same, or_comm]
    have visit := ih (List.forall_mem_append.mpr ⟨fun u edge => closed edge, inside⟩) here
    obtain ⟨mid, inner, rest⟩ := visit.of_append
    rw [tourFrom, if_neg new, if_pos node, entered, List.append_cons]
    exact .enter (fun old => new ((same v).mp old)) inner rest
  | case5 visited v todo new outside => exact absurd (inside v List.mem_cons_self) outside

theorem visits_reachable (closed : g.Closed) (inside : v ∈ g.nodes) :
    Visits g.next [] [v] (g.reachable v) := by
  have start : ∀ u ∈ arrivals [.arrive v], u ∈ g.nodes := by simpa [arrivals] using inside
  exact visits_tourFrom closed start fun _ => Iff.rfl

end EntityRules.Digraph
