import EntityRules.Proofs.Digraph.Tour

/-! The stack of a search for strongly connected components. -/

namespace EntityRules.Digraph

variable {V : Type} {g : Digraph V}

/-- Lists of just the components whose nodes are closed. -/
structure Reported (g : Digraph V) (closed : V → Prop) (lists : List (List V)) : Prop where
  sized : ∀ l ∈ lists, 2 ≤ l.length
  nodup : ∀ l ∈ lists, l.Nodup
  disjoint : lists.Pairwise List.Disjoint
  settled : ∀ l ∈ lists, ∀ u ∈ l, closed u
  members : ∀ l ∈ lists, ∀ u ∈ l, ∀ v, v ∈ l ↔ g.Mutual u v
  complete : ∀ u v, closed u → u ≠ v → g.Mutual u v → ∃ l ∈ lists, u ∈ l

/-- A component that has been closed is reported if it has more than one member. -/
theorem Reported.add {closed closed' : V → Prop} {lists : List (List V)} {l : List V}
    {v : V} (h : Reported g closed lists) (members : ∀ u, u ∈ l ↔ g.Mutual v u) (nodup : l.Nodup)
    (new : ∀ u ∈ l, ¬closed u) (now : ∀ u, closed' u ↔ closed u ∨ u ∈ l) :
    Reported g closed' (if 1 < l.length then lists ++ [l] else lists) := by
  have several : ∀ u w, u ∈ l → u ≠ w → g.Mutual u w → 1 < l.length := by
    intro u w hu differ same
    have hw : w ∈ l := (members w).mpr (((members u).mp hu).trans same)
    match l, hu, hw with
    | [_], hu, hw =>
      rw [List.mem_singleton] at hu hw
      exact absurd (hu.trans hw.symm) differ
    | _ :: _ :: _, _, _ => simp
  split
  · next more =>
    constructor
    · simpa [or_imp, forall_and] using ⟨h.sized, more⟩
    · simpa [or_imp, forall_and] using ⟨h.nodup, nodup⟩
    · refine List.pairwise_append.mpr ⟨h.disjoint, List.pairwise_singleton _ _, ?_⟩
      intro l' hl' _ last u hu hu'
      rw [List.mem_singleton.mp last] at hu'
      exact new u hu' (h.settled l' hl' u hu)
    · intro l' hl' u hu
      rcases List.mem_append.mp hl' with old | last
      · exact (now u).mpr (.inl (h.settled l' old u hu))
      · exact (now u).mpr (.inr (List.mem_singleton.mp last ▸ hu))
    · intro l' hl' u hu w
      rcases List.mem_append.mp hl' with old | last
      · exact h.members l' old u hu w
      · rw [List.mem_singleton.mp last] at hu ⊢
        have hu := (members u).mp hu
        rw [members w]
        exact ⟨hu.symm.trans, hu.trans⟩
    · intro u w hu differ same
      rcases (now u).mp hu with old | last
      · obtain ⟨l', hl', hu⟩ := h.complete u w old differ same
        exact ⟨l', List.mem_append_left _ hl', hu⟩
      · exact ⟨l, by simp, last⟩
  · next single =>
    refine ⟨h.sized, h.nodup, h.disjoint, ?_, h.members, ?_⟩
    · exact fun l' hl' u hu => (now u).mpr (.inl (h.settled l' hl' u hu))
    · intro u w hu differ same
      rcases (now u).mp hu with old | last
      · exact h.complete u w old differ same
      · exact absurd (several u w last differ same) single

namespace ComponentNotes

variable {s : ComponentNotes V} {visited : List V} {todo : List (Pending V)} {u v : V} {n : Nat}

/-- What is known of a successor that the tour has looked at. -/
def Looked (s : ComponentNotes V) (visited : List V) (v u : V) : Prop :=
  u ∈ visited ∧ (u ∈ s.stack → s.low v ≤ s.index u)

/-- The order in which nodes lie on the stack. -/
structure Stacked (visited : List V) (s : ComponentNotes V) : Prop where
  visited : ∀ v ∈ s.stack, v ∈ visited
  index_lt : ∀ v ∈ s.stack, s.index v < s.count
  sorted : s.stack.Pairwise fun a b => s.index b < s.index a
  path : s.path.Sublist s.stack

/-- How the nodes on the stack reach each other. The `low` of a node of the path bounds what it and
the finished nodes above it are known to lead to. -/
structure Connected (g : Digraph V) (s : ComponentNotes V) : Prop where
  ahead : ∀ p ∈ s.path, ∀ w ∈ s.stack, s.index p ≤ s.index w → g.Reaches p w
  behind : ∀ w ∈ s.stack, ∃ p ∈ s.path, s.index p ≤ s.index w ∧ g.Reaches w p
  low_le : ∀ p ∈ s.path, s.low p ≤ s.index p
  low_reached : ∀ p ∈ s.path, ∃ w ∈ s.stack, s.index w = s.low p ∧ g.Reaches p w

/-- What is known of the successors of nodes that have been left. -/
structure Finished (g : Digraph V) (visited : List V) (s : ComponentNotes V) : Prop where
  /-- On the stack, the last node of the path below a finished one answers for it. -/
  stacked : ∀ w ∈ s.stack, w ∉ s.path → ∀ u, g.Leads w u → u ∈ visited ∧
    (u ∈ s.stack → ∀ p ∈ s.path, s.index p ≤ s.index w →
      s.low p ≤ s.index u ∨ ∃ q ∈ s.path, s.index p < s.index q ∧ s.index q ≤ s.index w)
  closed : ∀ w ∈ visited, w ∉ s.stack → ∀ u, g.Leads w u → u ∈ visited ∧ u ∉ s.stack

/-- What every event of a tour keeps. -/
structure Sound (g : Digraph V) (visited : List V) (todo : List (Pending V))
    (s : ComponentNotes V) : Prop where
  nodes : ∀ v ∈ g.nodes, v ∈ visited ∨ .arrive v ∈ todo
  awaits : Awaits g g.nodes (fun _ => s.Looked visited) s.path todo
  stacked : Stacked visited s
  connected : Connected g s
  finished : Finished g visited s
  reported : Reported g (fun v => v ∈ visited ∧ v ∉ s.stack) s.components

namespace Stacked

theorem nodup (h : Stacked visited s) : s.stack.Nodup :=
  h.sorted.imp fun lt same => by simp [same] at lt

theorem mem_stack (h : Stacked visited s) {p : V} (hp : p ∈ s.path) : p ∈ s.stack :=
  h.path.subset hp

/-- The latest node of the path has the greatest index on it. -/
theorem index_lt_top (h : Stacked visited s) {path : List V} (top : s.path = v :: path) {p : V}
    (hp : p ∈ path) : s.index p < s.index v := by
  have sorted := h.sorted.sublist h.path
  rw [top] at sorted
  exact List.rel_of_pairwise_cons sorted hp

theorem not_mem_below (h : Stacked visited s) {path : List V} (top : s.path = v :: path) :
    v ∉ path :=
  fun hv => Nat.lt_irrefl _ (h.index_lt_top top hv)

theorem index_le_top (h : Stacked visited s) {path : List V} (top : s.path = v :: path) {p : V}
    (hp : p ∈ s.path) : s.index p ≤ s.index v := by
  rw [top] at hp
  rcases List.mem_cons.mp hp with rfl | hp
  · exact Nat.le_refl _
  · exact (h.index_lt_top top hp).le

end Stacked

/-- The latest node reaches whatever lies on the stack with the index that is its `low`, and so a
node of the path further down, unless the two indices are equal. -/
theorem Sound.low_lt (h : Sound g visited todo s) {path : List V} (top : s.path = v :: path)
    (below : s.low v ≠ s.index v) :
    ∃ p ∈ path, g.Reaches v p ∧ s.index p < s.index v := by
  have hv : v ∈ s.path := top ▸ List.mem_cons_self
  obtain ⟨w, hw, index, reached⟩ := h.connected.low_reached v hv
  obtain ⟨p, hp, before, back⟩ := h.connected.behind w hw
  have lt : s.index p < s.index v := by
    have := h.connected.low_le v hv
    omega
  refine ⟨p, ?_, reached.trans back, lt⟩
  rw [top] at hp
  rcases List.mem_cons.mp hp with rfl | hp
  · exact absurd lt (Nat.lt_irrefl _)
  · exact hp

theorem Stacked.below (h : Stacked visited s) {path : List V} (top : s.path = v :: path) :
    Stacked visited { s with path } where
  visited := h.visited
  index_lt := h.index_lt
  sorted := h.sorted
  path := (List.sublist_cons_self v path).trans (top ▸ h.path)

/-- Without a node that leads further down, the path bounds the stack as before. -/
theorem Sound.connected_below (h : Sound g visited todo s) {path : List V}
    (top : s.path = v :: path) (differ : s.low v ≠ s.index v) :
    Connected g { s with path } := by
  have sub : ∀ p ∈ path, p ∈ s.path := fun p hp => top ▸ List.mem_cons_of_mem _ hp
  constructor
  · exact fun p hp => h.connected.ahead p (sub p hp)
  · intro w hw
    obtain ⟨p, hp, le, back⟩ := h.connected.behind w hw
    rw [top] at hp
    rcases List.mem_cons.mp hp with same | hp
    · obtain ⟨q, hq, on, lt⟩ := h.low_lt top differ
      rw [same] at back le
      exact ⟨q, hq, lt.le.trans le, back.trans on⟩
    · exact ⟨p, hp, le, back⟩
  · exact fun p hp => h.connected.low_le p (sub p hp)
  · exact fun p hp => h.connected.low_reached p (sub p hp)

/-- The stack in two parts: a node with what lies above it, and what lies below. -/
structure Cut (s : ComponentNotes V) (v : V) (above below : List V) : Prop where
  split : s.stack = above ++ v :: below
  high : ∀ w ∈ above, s.index v < s.index w
  low : ∀ w ∈ below, s.index w < s.index v

namespace Cut

variable {above below : List V} (h : Cut s v above below)

include h

theorem mem_part_iff (w : V) : w ∈ above ++ [v] ↔ w ∈ s.stack ∧ s.index v ≤ s.index w := by
  rw [h.split]
  constructor
  · intro hw
    rcases List.mem_append.mp hw with hw | last
    · exact ⟨List.mem_append_left _ hw, (h.high w hw).le⟩
    · rw [List.mem_singleton.mp last]
      exact ⟨by simp, Nat.le_refl _⟩
  · rintro ⟨hw, le⟩
    rw [List.append_cons] at hw
    exact (List.mem_append.mp hw).resolve_right fun hw => absurd (h.low w hw) (Nat.not_lt.mpr le)

theorem mem_below_iff (w : V) : w ∈ below ↔ w ∈ s.stack ∧ s.index w < s.index v := by
  rw [h.split]
  constructor
  · exact fun hw => ⟨by simp [hw], h.low w hw⟩
  · rintro ⟨hw, lt⟩
    rcases List.mem_append.mp hw with hw | hw
    · exact absurd (h.high w hw) (Nat.not_lt.mpr lt.le)
    · exact (List.mem_cons.mp hw).resolve_left fun same => Nat.lt_irrefl _ (same ▸ lt)

theorem mem_stack {w : V} (hw : w ∈ below) : w ∈ s.stack := ((h.mem_below_iff w).mp hw).1

theorem nodup (stacked : Stacked visited s) : (above ++ [v]).Nodup := by
  have nodup := stacked.nodup
  rw [h.split, List.append_cons] at nodup
  exact (List.nodup_append.mp nodup).1

/-- The path below the node lies in the lower part. -/
theorem sublist {path : List V} (on : (v :: path).Sublist s.stack) : path.Sublist below := by
  rw [h.split] at on
  obtain ⟨front, back, whole, fits, on⟩ := List.sublist_append_iff.mp on
  cases front with
  | nil =>
    rw [List.nil_append] at whole
    exact List.cons_sublist_cons.mp (whole ▸ on)
  | cons p front =>
    obtain ⟨rfl, -⟩ := List.cons.inj whole
    exact absurd (h.high v (fits.subset List.mem_cons_self)) (Nat.lt_irrefl _)

end Cut

section

variable {path : List V} (h : Sound g visited todo s) (top : s.path = v :: path)
  (looked : ∀ u, g.Leads v u → s.Looked visited v u) (closes : s.low v = s.index v)

include h top looked closes

/-- Nothing leads from the part of the stack to what lies below. -/
theorem Sound.leads_above {x y : V} (hx : x ∈ s.stack) (above : s.index v ≤ s.index x)
    (edge : g.Leads x y) : y ∈ visited ∧ (y ∈ s.stack → s.index v ≤ s.index y) := by
  by_cases same : x = v
  · rw [same] at edge
    obtain ⟨seen, le⟩ := looked y edge
    exact ⟨seen, fun on => closes ▸ le on⟩
  · have left : x ∉ s.path := by
      intro hp
      rw [top] at hp
      have hp := (List.mem_cons.mp hp).resolve_left same
      exact absurd (h.stacked.index_lt_top top hp) (Nat.not_lt.mpr above)
    obtain ⟨seen, answer⟩ := h.finished.stacked x hx left y edge
    refine ⟨seen, fun on => ?_⟩
    rcases answer on v (top ▸ List.mem_cons_self) above with low | ⟨q, hq, lt, -⟩
    · exact closes ▸ low
    · exact absurd (h.stacked.index_le_top top hq) (Nat.not_le.mpr lt)

/-- The part of the stack is the component of its lowest node. -/
theorem Sound.mem_component_iff (x : V) :
    x ∈ s.stack ∧ s.index v ≤ s.index x ↔ g.Mutual v x := by
  have hv : v ∈ s.path := top ▸ List.mem_cons_self
  have settled : ∀ a b, a ∈ visited ∧ a ∉ s.stack → g.Leads a b → b ∈ visited ∧ b ∉ s.stack :=
    fun a b ha edge => h.finished.closed a ha.1 ha.2 b edge
  have stays : ∀ {a b}, a ∈ s.stack → s.index v ≤ s.index a → g.Reaches a b →
      (b ∈ s.stack ∧ s.index v ≤ s.index b) ∨ (b ∈ visited ∧ b ∉ s.stack) := by
    intro a b ha above reach
    induction reach with
    | refl => exact .inl ⟨ha, above⟩
    | @tail c d _ edge ih =>
      rcases ih with ⟨hc, above⟩ | done
      · obtain ⟨seen, le⟩ := h.leads_above top looked closes hc above edge
        by_cases on : d ∈ s.stack
        · exact .inl ⟨on, le on⟩
        · exact .inr ⟨seen, on⟩
      · exact .inr (settled c d done edge)
  constructor
  · rintro ⟨hx, above⟩
    refine ⟨h.connected.ahead v hv x hx above, ?_⟩
    obtain ⟨p, hp, -, back⟩ := h.connected.behind x hx
    rw [top] at hp
    rcases List.mem_cons.mp hp with same | hp
    · exact same ▸ back
    · -- A node of the path below would have to lie in the part.
      rcases stays hx above back with ⟨-, le⟩ | ⟨-, off⟩
      · exact absurd (h.stacked.index_lt_top top hp) (Nat.not_lt.mpr le)
      · exact absurd (h.stacked.mem_stack (top ▸ List.mem_cons_of_mem _ hp)) off
  · rintro ⟨on, back⟩
    have hv := h.stacked.mem_stack hv
    rcases stays hv (Nat.le_refl _) on with inside | done
    · exact inside
    · exact absurd hv (back.mem_of_forall done settled).2

end

section

variable {path above below : List V} {lists : List (List V)}

theorem Stacked.drop (h : Stacked visited s) (top : s.path = v :: path)
    (cut : Cut s v above below) :
    Stacked visited { s with path, stack := below, components := lists } where
  visited w hw := h.visited w (cut.mem_stack hw)
  index_lt w hw := h.index_lt w (cut.mem_stack hw)
  sorted := by
    have sorted := h.sorted
    rw [cut.split, List.pairwise_append, List.pairwise_cons] at sorted
    exact sorted.2.1.2
  path := cut.sublist (top ▸ h.path)

variable (h : Sound g visited todo s) (top : s.path = v :: path)

include h top

theorem Sound.connected_drop (cut : Cut s v above below) :
    Connected g { s with path, stack := below, components := lists } := by
  have sub : ∀ p ∈ path, p ∈ s.path := fun p hp => top ▸ List.mem_cons_of_mem _ hp
  constructor
  · exact fun p hp w hw => h.connected.ahead p (sub p hp) w (cut.mem_stack hw)
  · intro w hw
    obtain ⟨p, hp, le, back⟩ := h.connected.behind w (cut.mem_stack hw)
    rw [top] at hp
    rcases List.mem_cons.mp hp with same | hp
    · exact absurd (cut.low w hw) (Nat.not_lt.mpr (same ▸ le))
    · exact ⟨p, hp, le, back⟩
  · exact fun p hp => h.connected.low_le p (sub p hp)
  · intro p hp
    obtain ⟨w, hw, index, reached⟩ := h.connected.low_reached p (sub p hp)
    have lt : s.index w < s.index v := calc
      s.index w = s.low p := index
      _ ≤ s.index p := h.connected.low_le p (sub p hp)
      _ < s.index v := h.stacked.index_lt_top top hp
    exact ⟨w, (cut.mem_below_iff w).mpr ⟨hw, lt⟩, index, reached⟩

theorem Sound.finished_drop (looked : ∀ u, g.Leads v u → s.Looked visited v u)
    (closes : s.low v = s.index v) (cut : Cut s v above below) :
    Finished g visited { s with path, stack := below, components := lists } := by
  constructor
  · intro w hw left u edge
    have left : w ∉ s.path := by
      rw [top]
      refine List.not_mem_cons_of_ne_of_not_mem (fun same => ?_) left
      exact Nat.lt_irrefl _ (same ▸ cut.low w hw)
    obtain ⟨seen, answer⟩ := h.finished.stacked w (cut.mem_stack hw) left u edge
    refine ⟨seen, fun on p hp le => ?_⟩
    refine (answer (cut.mem_stack on) p (top ▸ List.mem_cons_of_mem _ hp) le).imp_right ?_
    rintro ⟨q, hq, lt, between⟩
    rw [top] at hq
    rcases List.mem_cons.mp hq with same | hq
    · exact absurd (cut.low w hw) (Nat.not_lt.mpr (same ▸ between))
    · exact ⟨q, hq, lt, between⟩
  · intro w hw off u edge
    by_cases on : w ∈ s.stack
    · have above : s.index v ≤ s.index w :=
        Nat.not_lt.mp fun lt => off ((cut.mem_below_iff w).mpr ⟨on, lt⟩)
      obtain ⟨seen, le⟩ := h.leads_above top looked closes on above edge
      exact ⟨seen, fun hu => absurd (cut.low u hu) (Nat.not_lt.mpr (le (cut.mem_stack hu)))⟩
    · obtain ⟨seen, away⟩ := h.finished.closed w hw on u edge
      exact ⟨seen, fun hu => away (cut.mem_stack hu)⟩

end

end ComponentNotes

end EntityRules.Digraph
