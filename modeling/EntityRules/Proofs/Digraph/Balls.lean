import EntityRules.Proofs.Digraph.Hops
import EntityRules.Proofs.Digraph.Tour
import Mathlib.Data.List.Nodup
import Mathlib.Data.List.Perm.Subperm

/-! What a depth-first tour that turns back at a depth enters. -/

namespace EntityRules.Digraph

variable {V : Type} {g : Digraph V} {center u v : V} {depth level : Nat} {visited nodes : List V}
  {todo : List (V × Nat)}

/-- Some way without repetition comes to a node in just so many hops. -/
def EndsTrail (leads : V → V → Prop) (center : V) (hops : Nat) (v : V) : Prop :=
  ∃ trail, IsWay leads center v trail ∧ trail.Nodup ∧ trail.length = hops + 1

/-- A node that lies nearer is not met again after one hop. -/
theorem EndsTrail.two_le {leads : V → V → Prop} {hops : Nat} (h : EndsTrail leads center hops v)
    (near : Within leads center level v) (lt : level < hops) : 2 ≤ hops := by
  obtain ⟨trail, way, nodup, length⟩ := h
  by_contra few
  obtain ⟨rfl, rfl⟩ : hops = 1 ∧ level = 0 := by omega
  obtain ⟨a, b, rfl⟩ := List.length_eq_two.mp length
  obtain rfl : a = center := by simpa using way.start
  obtain rfl : b = v := by simpa using way.stop
  exact (List.nodup_cons.mp nodup).1 (List.mem_singleton.mpr near.symm)

/-- A way without repetition has fewer hops than the graph has nodes. -/
theorem EndsTrail.lt_length (h : EndsTrail g.Leads center depth v) (closed : g.Closed)
    (inside : center ∈ g.nodes) : depth < g.nodes.length := by
  obtain ⟨trail, way, nodup, length⟩ := h
  have known : trail ⊆ g.nodes := fun w hw =>
    Reaches.mem_of_forall (P := (· ∈ g.nodes)) (way.within_of_mem hw (Nat.le_of_eq length)).reaches
      inside fun _ _ _ edge => closed edge
  have := (List.subperm_of_subset nodup known).length_le
  omega

/-- What a tour keeps: how what is entered has been reached, how what is left to do is reached, and
what may not have been looked at. -/
structure Spread (g : Digraph V) (center : V) (depth : Nat) (visited : List V)
    (todo : List (V × Nat)) : Prop where
  nodup : visited.Nodup
  begun : center ∈ visited ∨ (center, 0) ∈ todo
  reached : ∀ v ∈ visited, ∃ hops ≤ depth, EndsTrail g.Leads center hops v
  ahead : ∀ t ∈ todo, ∃ trail, IsWay g.Leads center t.1 (trail ++ [t.1]) ∧ trail.Nodup ∧
    (∀ v ∈ trail, v ∈ visited) ∧ trail.length = t.2
  looked : ∀ v ∈ visited, EndsTrail g.Leads center depth v ∨
    ∀ u, g.Leads v u → u ∈ visited ∨ ∃ level ≤ depth, (u, level) ∈ todo

namespace Spread

theorem start (g : Digraph V) (center : V) (depth : Nat) :
    Spread g center depth [] [(center, 0)] where
  nodup := .nil
  begun := .inr List.mem_cons_self
  reached := by simp
  ahead := by
    rintro t ht
    obtain rfl := List.mem_singleton.mp ht
    exact ⟨[], isWay_singleton g.Leads center, .nil, by simp, rfl⟩
  looked := by simp

theorem enter (h : Spread g center depth visited ((v, level) :: todo)) (new : v ∉ visited)
    (le : level ≤ depth) :
    Spread g center depth (v :: visited) ((g.next v).map (·, level + 1) ++ todo) := by
  obtain ⟨⟨trail, way, nodup, old, length⟩, ahead⟩ := List.forall_mem_cons.mp h.ahead
  have nodup' : (trail ++ [v]).Nodup := by
    refine List.nodup_append.mpr ⟨nodup, List.nodup_singleton v, fun x hx y hy same => ?_⟩
    exact new (List.mem_singleton.mp hy ▸ same ▸ old x hx)
  have ends : EndsTrail g.Leads center level v := ⟨trail ++ [v], way, nodup', by simp [length]⟩
  constructor
  · exact List.nodup_cons.mpr ⟨new, h.nodup⟩
  · rcases h.begun with old | pending
    · exact .inl (List.mem_cons_of_mem _ old)
    · rcases List.mem_cons.mp pending with same | later
      · cases same
        exact .inl List.mem_cons_self
      · exact .inr (List.mem_append_right _ later)
  · exact List.forall_mem_cons.mpr ⟨⟨level, le, ends⟩, h.reached⟩
  · refine List.forall_mem_append.mpr ⟨List.forall_mem_map.mpr fun u edge => ?_, fun t ht => ?_⟩
    · refine ⟨trail ++ [v], way.concat edge, nodup', fun x hx => ?_, by simp [length]⟩
      rcases List.mem_append.mp hx with hx | hx
      · exact List.mem_cons_of_mem _ (old x hx)
      · exact List.mem_singleton.mp hx ▸ List.mem_cons_self
    · obtain ⟨trail, way, nodup, old, length⟩ := ahead t ht
      exact ⟨trail, way, nodup, fun x hx => List.mem_cons_of_mem _ (old x hx), length⟩
  · refine List.forall_mem_cons.mpr ⟨?_, fun x hx => (h.looked x hx).imp_right fun seen u edge => ?_⟩
    · rcases Nat.eq_or_lt_of_le le with rfl | lt
      · exact .inl ends
      · refine .inr fun u edge => .inr ⟨level + 1, lt, ?_⟩
        exact List.mem_append_left _ (List.mem_map_of_mem edge)
    · rcases seen u edge with old | ⟨l, near, pending⟩
      · exact .inl (List.mem_cons_of_mem _ old)
      · rcases List.mem_cons.mp pending with same | later
        · cases same
          exact .inl List.mem_cons_self
        · exact .inr ⟨l, near, List.mem_append_right _ later⟩

/-- Nothing is lost when the tour passes over a node, because it has been entered or lies too far.
-/
theorem pass (h : Spread g center depth visited ((v, level) :: todo))
    (known : level ≤ depth → v ∈ visited) : Spread g center depth visited todo := by
  refine { h with begun := ?_, ahead := (List.forall_mem_cons.mp h.ahead).2, looked := ?_ }
  · rcases h.begun with old | pending
    · exact .inl old
    · rcases List.mem_cons.mp pending with same | later
      · cases same
        exact .inl (known (Nat.zero_le depth))
      · exact .inr later
  · refine fun x hx => (h.looked x hx).imp_right fun seen u edge => ?_
    rcases seen u edge with old | ⟨l, near, pending⟩
    · exact .inl old
    · rcases List.mem_cons.mp pending with same | later
      · cases same
        exact .inl (known near)
      · exact .inr ⟨l, near, later⟩

theorem mem_nodes (h : Spread g center depth visited ((v, level) :: todo)) (closed : g.Closed)
    (inside : center ∈ g.nodes) : v ∈ g.nodes := by
  obtain ⟨trail, way, -⟩ := h.ahead (v, level) List.mem_cons_self
  rcases way.cases_concat with ⟨-, rfl⟩ | ⟨-, u, -, -, edge⟩
  · exact inside
  · exact closed edge

theorem perm {visited' : List V} (h : Spread g center depth visited todo)
    (same : visited.Perm visited') : Spread g center depth visited' todo where
  nodup := same.nodup h.nodup
  begun := h.begun.imp_left same.mem_iff.mp
  reached v hv := h.reached v (same.mem_iff.mpr hv)
  ahead t ht := by
    obtain ⟨trail, way, nodup, old, length⟩ := h.ahead t ht
    exact ⟨trail, way, nodup, fun v hv => same.mem_iff.mp (old v hv), length⟩
  looked v hv := (h.looked v (same.mem_iff.mpr hv)).imp_right fun seen u edge =>
    (seen u edge).imp_left same.mem_iff.mp

theorem within (h : Spread g center depth visited todo) (hv : v ∈ visited) :
    Within g.Leads center depth v := by
  obtain ⟨hops, le, trail, way, -, length⟩ := h.reached v hv
  exact way.within (by omega)

/-- At the end the last node of a way has been entered, unless the tour may have turned back at a
node before it. -/
theorem mem_or_endsTrail (h : Spread g center depth visited [])
    (way : IsWay g.Leads center v nodes) :
    v ∈ visited ∨ ∃ u ∈ nodes.dropLast, EndsTrail g.Leads center depth u := by
  induction nodes using List.reverseRecOn generalizing v with
  | nil => cases way.start
  | append_singleton before x ih =>
    rw [List.dropLast_concat]
    rcases way.cases_concat with ⟨-, rfl⟩ | ⟨before', w, same, way', edge⟩
    · exact .inl (h.begun.resolve_right List.not_mem_nil)
    · obtain ⟨rfl, -⟩ := List.append_inj' same rfl
      rcases ih way' with seen | ⟨u, hu, ends⟩
      · rcases h.looked w seen with ends | done
        · exact .inr ⟨w, List.mem_of_getLast? way'.stop, ends⟩
        · exact .inl ((done v edge).resolve_right (by simp))
      · exact .inr ⟨u, List.dropLast_subset _ hu, ends⟩

/-- Everything near is entered when no nearer node ends such a way. -/
theorem mem_iff_within (h : Spread g center depth visited [])
    (early : ∀ u n, n < depth → Within g.Leads center n u → ¬EndsTrail g.Leads center depth u) :
    v ∈ visited ↔ Within g.Leads center depth v := by
  refine ⟨h.within, fun near => ?_⟩
  obtain ⟨nodes, way, le⟩ := within_iff.mp near
  rcases h.mem_or_endsTrail way with seen | ⟨u, hu, ends⟩
  · exact seen
  · obtain ⟨n, lt, near⟩ := way.exists_within_lt hu le
    exact absurd ends (early u n lt near)

variable [DecidableEq V]

theorem run (closed : g.Closed) (inside : center ∈ g.nodes)
    (h : Spread g center depth visited todo) :
    Spread g center depth ((g.enteredWithin depth visited todo).reverse ++ visited) [] := by
  induction visited, todo using enteredWithin.induct g depth with
  | case1 visited =>
    rw [enteredWithin]
    exact h
  | case2 visited v level todo enters ih =>
    simp only [List.map_subtype, List.unattach_attach] at ih
    rw [enteredWithin, if_pos enters, List.reverse_cons, List.append_assoc]
    exact ih (h.enter enters.2.1 (Int.ofNat_le.mp enters.2.2))
  | case3 visited v level todo passes ih =>
    rw [enteredWithin, if_neg passes]
    refine ih (h.pass fun le => ?_)
    by_contra new
    exact passes ⟨h.mem_nodes closed inside, new, Int.ofNat_le.mpr le⟩

end Spread

theorem spread_enteredWithin [DecidableEq V] (depth : Nat) (closed : g.Closed)
    (inside : center ∈ g.nodes) :
    Spread g center depth (g.enteredWithin depth [] [(center, 0)]) [] := by
  have spread := (Spread.start g center depth).run closed inside
  rw [List.append_nil] at spread
  exact spread.perm (List.reverse_perm _)

end EntityRules.Digraph
