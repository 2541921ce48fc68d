import Mathlib.Data.List.Chain
import Mathlib.Data.List.TakeWhile
import Mathlib.Logic.Relation

/-! Ways, told by the nodes on them, and what lies within some hops of a node. -/

namespace EntityRules.Digraph

variable {V : Type} {leads : V → V → Prop} {u v w : V} {nodes : List V} {n m : Nat}

/-- A way from one node to another one, as the nodes on it. -/
structure IsWay (leads : V → V → Prop) (u v : V) (nodes : List V) : Prop where
  start : nodes.head? = some u
  stop : nodes.getLast? = some v
  linked : nodes.IsChain leads

/-- The node is reached over a number of edges at most. -/
def Within (leads : V → V → Prop) (u : V) : Nat → V → Prop
  | 0, v => v = u
  | n + 1, v => Within leads u n v ∨ ∃ w, Within leads u n w ∧ leads w v

theorem Within.mono (h : Within leads u n v) (le : n ≤ m) : Within leads u m v := by
  induction le with
  | refl => exact h
  | step _ ih => exact .inl ih

theorem Within.succ (h : Within leads u n v) (edge : leads v w) : Within leads u (n + 1) w :=
  .inr ⟨v, h, edge⟩

theorem within_self (leads : V → V → Prop) (u : V) (n : Nat) : Within leads u n u :=
  Within.mono (n := 0) rfl (Nat.zero_le n)

theorem Within.reaches (h : Within leads u n v) : Relation.ReflTransGen leads u v := by
  induction n generalizing v with
  | zero => exact h ▸ .refl
  | succ n ih =>
    rcases h with h | ⟨w, h, edge⟩
    · exact ih h
    · exact (ih h).tail edge

theorem isWay_singleton (leads : V → V → Prop) (u : V) : IsWay leads u u [u] :=
  ⟨rfl, rfl, .singleton u⟩

theorem IsWay.concat (h : IsWay leads u v nodes) (edge : leads v w) :
    IsWay leads u w (nodes ++ [w]) := by
  constructor
  · rw [List.head?_append, h.start, Option.some_or]
  · rw [List.getLast?_concat]
  · refine h.linked.append (.singleton w) fun x hx y hy => ?_
    rw [h.stop, Option.mem_some_iff] at hx
    rw [List.head?_cons, Option.mem_some_iff] at hy
    exact hx ▸ hy ▸ edge

/-- A way without edges, or one with an edge at its end. -/
theorem IsWay.cases_concat (h : IsWay leads u v nodes) :
    nodes = [u] ∧ v = u ∨
      ∃ before w, nodes = before ++ [v] ∧ IsWay leads u w before ∧ leads w v := by
  obtain ⟨before, rfl⟩ := List.getLast?_eq_some_iff.mp h.stop
  rcases List.eq_nil_or_concat before with rfl | ⟨front, w, rfl⟩
  · obtain rfl : v = u := by simpa using h.start
    exact .inl ⟨rfl, rfl⟩
  · rw [List.concat_eq_append] at h ⊢
    obtain ⟨linked, -, joined⟩ := List.isChain_append.mp h.linked
    refine .inr ⟨front ++ [w], w, rfl, ⟨?_, List.getLast?_concat, linked⟩, ?_⟩
    · have start := h.start
      rwa [List.head?_append_of_ne_nil _ (by simp)] at start
    · exact joined w (by simp) v (by simp)

/-- The nodes of a way lie no further than its end does along it. -/
theorem IsWay.within_of_mem (h : IsWay leads u v nodes) (hw : w ∈ nodes)
    (le : nodes.length ≤ n + 1) : Within leads u n w := by
  induction n generalizing nodes v w with
  | zero =>
    rcases h.cases_concat with ⟨rfl, -⟩ | ⟨before, x, rfl, h', -⟩
    · exact List.mem_singleton.mp hw
    · obtain rfl : before = [] := by simpa using le
      cases h'.start
  | succ n ih =>
    rcases h.cases_concat with ⟨rfl, -⟩ | ⟨before, x, rfl, h', edge⟩
    · exact List.mem_singleton.mp hw ▸ within_self leads u _
    · have near : before.length ≤ n + 1 := by simpa using le
      rcases List.mem_append.mp hw with hw | hw
      · exact .inl (ih h' hw near)
      · rw [List.mem_singleton.mp hw]
        exact (ih h' (List.mem_of_getLast? h'.stop) near).succ edge

theorem IsWay.within (h : IsWay leads u v nodes) (le : nodes.length ≤ n + 1) :
    Within leads u n v :=
  h.within_of_mem (List.mem_of_getLast? h.stop) le

/-- Those before the end lie nearer. -/
theorem IsWay.exists_within_lt (h : IsWay leads u v nodes) (hw : w ∈ nodes.dropLast)
    (le : nodes.length ≤ n + 1) : ∃ m < n, Within leads u m w := by
  rcases h.cases_concat with ⟨rfl, -⟩ | ⟨before, x, rfl, h', -⟩
  · cases hw
  · rw [List.dropLast_concat] at hw
    have some_ := List.length_pos_of_mem hw
    have near : before.length ≤ n := by simpa using le
    exact ⟨before.length - 1, by omega, h'.within_of_mem hw (by omega)⟩

theorem IsWay.two_le_length (h : IsWay leads u v nodes) (differ : u ≠ v) : 2 ≤ nodes.length := by
  by_contra short
  have same : Within leads u 0 v := h.within (by omega)
  exact differ same.symm

theorem within_iff :
    Within leads u n v ↔ ∃ nodes, IsWay leads u v nodes ∧ nodes.length ≤ n + 1 := by
  refine ⟨fun h => ?_, fun ⟨nodes, h, le⟩ => h.within le⟩
  induction n generalizing v with
  | zero => exact ⟨[u], h ▸ isWay_singleton leads u, Nat.le_refl _⟩
  | succ n ih =>
    rcases h with h | ⟨w, h, edge⟩
    · obtain ⟨nodes, way, le⟩ := ih h
      exact ⟨nodes, way, Nat.le_succ_of_le le⟩
    · obtain ⟨nodes, way, le⟩ := ih h
      exact ⟨nodes ++ [v], way.concat edge, by simpa using le⟩

end EntityRules.Digraph
