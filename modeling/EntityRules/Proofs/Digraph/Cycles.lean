import EntityRules.Proofs.Digraph.Tour
import Mathlib.Data.List.Nodup

/-! The search for cycles reports circuits only, and misses no component with a circuit. -/

namespace EntityRules.Digraph

variable {V : Type} {g : Digraph V}

/-- A closed trail over two or more nodes: they are all different, and the first one stands at the
end once more. -/
def IsCircuit (leads : V → V → Prop) (c : List V) : Prop :=
  ∃ v vs, c = v :: vs ++ [v] ∧ vs ≠ [] ∧ (v :: vs).Nodup ∧ c.IsChain leads

/-- No edge leads back to where it starts. -/
def Loopless (g : Digraph V) : Prop := ∀ v, ¬g.Leads v v

section

variable {leads : V → V → Prop} {c : List V}

/-- The nodes of a circuit all reach each other. -/
theorem IsCircuit.reaches (h : IsCircuit leads c) {x y : V} (hx : x ∈ c) (hy : y ∈ c) :
    Relation.ReflTransGen leads x y := by
  obtain ⟨v, vs, rfl, -, -, chain⟩ := h
  have away : ∀ z ∈ v :: vs ++ [v], Relation.ReflTransGen leads v z :=
    chain.induction _ _ (fun _ _ edge reached => reached.tail edge) fun _ => .refl
  have back : ∀ z ∈ v :: vs ++ [v], Relation.ReflTransGen leads z v :=
    chain.backwards_induction _ _ (fun _ _ edge reached => reached.head edge) fun _ => by
      rw [List.getLast_append_of_ne_nil _ (List.cons_ne_nil v [])]
      exact .refl
  exact (back x hx).trans (away y hy)

/-- Every node of a circuit has another one beside it. -/
theorem IsCircuit.exists_ne (h : IsCircuit leads c) (x : V) : ∃ y ∈ c, x ≠ y := by
  obtain ⟨v, vs, rfl, several, nodup, -⟩ := h
  obtain ⟨w, hw⟩ := List.exists_mem_of_ne_nil vs several
  by_cases same : x = v
  · refine ⟨w, by simp [hw], fun same' => ?_⟩
    exact (List.nodup_cons.mp nodup).1 (same ▸ same' ▸ hw)
  · exact ⟨v, List.mem_cons_self, same⟩

end

namespace CycleNotes

variable {root u v x y : V} {visited left : List V} {todo : List (Pending V)} {s : CycleNotes V}

/-- A cycle has been found whose nodes all belong to the component of a node. -/
def Accounted (g : Digraph V) (s : CycleNotes V) (v : V) : Prop :=
  ∃ c ∈ s.cycles, ∀ x ∈ c, g.Mutual v x

/-- What is known of a successor that the tour has looked at. -/
def Looked (g : Digraph V) (s : CycleNotes V) (visited below : List V) (v u : V) : Prop :=
  u ∈ visited ∧ (u ∈ below → Accounted g s v)

/-- What every event of a tour from a root keeps; the nodes that have been left are listed, the
latest one first. -/
structure Sound (g : Digraph V) (root : V) (visited left : List V) (todo : List (Pending V))
    (s : CycleNotes V) : Prop where
  begun : root ∈ visited ∨ .arrive root ∈ todo
  awaits : Awaits g [root] (Looked g s visited) s.path todo
  nodup : s.path.Nodup
  trail : s.path.IsChain fun v u => g.Leads u v
  visited_iff : ∀ v, v ∈ visited ↔ v ∈ s.path ∨ v ∈ left
  reached : ∀ v ∈ visited, g.Reaches root v
  circuits : ∀ c ∈ s.cycles, IsCircuit g.Leads c ∧ ∀ x ∈ c, g.Reaches root x
  finished : ∀ v below, v :: below <:+ left → ∀ u, g.Leads v u →
    u ∈ visited ∧ (u ∈ below ∨ Accounted g s v)

theorem Accounted.mutual (h : Accounted g s v) (same : g.Mutual u v) : Accounted g s u := by
  obtain ⟨c, hc, inside⟩ := h
  exact ⟨c, hc, fun x hx => same.trans (inside x hx)⟩

theorem Sound.start (g : Digraph V) (root : V) :
    Sound g root [] [] [.arrive root] { path := [], cycles := [] } where
  begun := .inr List.mem_cons_self
  awaits := Awaits.start fun _ hv => hv
  nodup := .nil
  trail := .nil
  visited_iff := by simp
  reached := by simp
  circuits := by simp
  finished := by simp

/-- At the end every node that is reached from the root has been left. -/
theorem Sound.mem_left (h : Sound g root visited left [] s) (hx : g.Reaches root x) : x ∈ left := by
  have empty : s.path = [] := h.awaits.of_done
  have seen : ∀ v, v ∈ visited ↔ v ∈ left := by simpa [empty] using h.visited_iff
  refine hx.mem_of_forall ?_ fun v u hv edge => ?_
  · exact (seen root).mp (h.begun.resolve_right List.not_mem_nil)
  · obtain ⟨after, below, split⟩ := List.mem_iff_append.mp hv
    exact (seen u).mp (h.finished v below ⟨after, split.symm⟩ u edge).1

/-- At the end a cycle accounts for every component of two or more nodes: the first one of its nodes
to be left had a successor in the component. A successor of a node that is left has been left
before, or else it lies on the path below, and then meeting it has closed a cycle. -/
theorem Sound.accounted (h : Sound g root visited left [] s) (hx : g.Reaches root x)
    (same : g.Mutual x y) (differ : x ≠ y) : Accounted g s x := by
  by_contra none
  have absent : ∀ below, below <:+ left → ∀ v ∈ below, ¬g.Mutual x v := by
    intro below
    induction below with
    | nil => simp
    | cons w below ih =>
      intro suffix v hv together
      have earlier := ih ((List.suffix_cons w below).trans suffix)
      rcases List.mem_cons.mp hv with rfl | hv
      · obtain ⟨u, edge, beside⟩ : ∃ u, g.Leads v u ∧ g.Mutual v u := by
          by_cases first : v = x
          · exact Mutual.exists_leads (first ▸ same) (first ▸ differ)
          · exact together.symm.exists_leads first
        rcases (h.finished v below suffix u edge).2 with before | account
        · exact earlier u before (together.trans beside)
        · exact none (account.mutual together)
      · exact earlier v hv together
  exact absent left (List.suffix_refl left) x (h.mem_left hx) (.refl x)

variable [DecidableEq V]

/-- The cycle that is closed when the latest node of the path leads back to a node of the path. -/
theorem isCircuit_cycle {path : List V} (loopless : g.Loopless) (top : s.path = v :: path)
    (nodup : s.path.Nodup) (trail : s.path.IsChain fun v u => g.Leads u v) (edge : g.Leads v u)
    (on : u ∈ s.path) : IsCircuit g.Leads (s.cycle u) := by
  obtain ⟨front, back, split, new⟩ := List.eq_append_cons_of_mem on
  rw [cycle, split, takeWhile_ne back new]
  rw [split] at nodup trail top
  cases front with
  | nil =>
    obtain ⟨rfl, -⟩ := List.cons.inj top
    exact absurd edge (loopless u)
  | cons w front =>
    obtain ⟨rfl, -⟩ := List.cons.inj top
    refine ⟨u, (w :: front).reverse, rfl, by simp, ?_, ?_⟩
    · rw [List.nodup_cons, List.mem_reverse, List.nodup_reverse]
      exact ⟨new, (List.nodup_append.mp nodup).1⟩
    · have around : u :: (w :: front).reverse ++ [u] = (u :: w :: (front ++ [u])).reverse := by simp
      rw [around, List.isChain_reverse]
      exact .cons_cons edge (List.isChain_split.mp trail).1

/-- It runs through the latest node of the path. -/
theorem mem_cycle_of_top {path : List V} (top : s.path = v :: path) : v ∈ s.cycle u := by
  rw [cycle, top]
  by_cases same : v = u <;> simp [same]

theorem mem_path_of_mem_cycle (on : u ∈ s.path) (hx : x ∈ s.cycle u) : x ∈ s.path := by
  rcases List.mem_append.mp hx with hx | hx
  · rcases List.mem_cons.mp hx with rfl | hx
    · exact on
    · exact (List.takeWhile_sublist _).subset (List.mem_reverse.mp hx)
  · exact List.mem_singleton.mp hx ▸ on

theorem Sound.enter (h : Sound g root visited left (.arrive v :: todo) s) (new : v ∉ visited) :
    Sound g root (v :: visited) left ((g.next v).map .arrive ++ .leave v :: todo)
      (s.note (.enter v)) := by
  have off : v ∉ s.path := fun on => new ((h.visited_iff v).mpr (.inl on))
  constructor
  · exact due_enter h.begun
  · have kept : Awaits g [root] (Looked g s (v :: visited)) s.path (.arrive v :: todo) :=
      h.awaits.mono fun _ _ _ _ looked => ⟨List.mem_cons_of_mem _ looked.1, looked.2⟩
    refine (kept.of_looked fun p below top => ⟨List.mem_cons_self, fun on => ?_⟩).enter v
    exact absurd (top ▸ List.mem_cons_of_mem p on) off
  · exact List.nodup_cons.mpr ⟨off, h.nodup⟩
  · change (v :: s.path).IsChain fun v u => g.Leads u v
    cases top : s.path with
    | nil => exact .singleton v
    | cons p below => exact .cons_cons (h.awaits.leads top) (top ▸ h.trail)
  · intro w
    change w ∈ v :: visited ↔ w ∈ v :: s.path ∨ w ∈ left
    rw [List.mem_cons, List.mem_cons, h.visited_iff w, or_assoc]
  · intro w hw
    rcases List.mem_cons.mp hw with rfl | old
    · cases top : s.path with
      | nil =>
        have awaits := h.awaits
        rw [top] at awaits
        rw [List.mem_singleton.mp awaits.of_arrive_start.1]
        exact .refl _
      | cons p below =>
        have seen : p ∈ visited := (h.visited_iff p).mpr (.inl (top ▸ List.mem_cons_self))
        exact (h.reached p seen).trans (h.awaits.leads top).reaches
    · exact h.reached w old
  · exact h.circuits
  · intro w below suffix u edge
    exact (h.finished w below suffix u edge).imp_left (List.mem_cons_of_mem _)

theorem Sound.leave (h : Sound g root visited left (.leave v :: todo) s) (loopless : g.Loopless) :
    Sound g root visited (v :: left) todo (s.note (.leave v)) := by
  obtain ⟨below, top, looked, awaits⟩ := h.awaits.of_leave
  have path : (s.note (.leave v)).path = below := by rw [note, top, List.tail_cons]
  have nodup := h.nodup
  rw [top] at nodup
  constructor
  · exact due_leave h.begun
  · rw [path]
    exact awaits
  · rw [path]
    exact (List.nodup_cons.mp nodup).2
  · rw [path]
    exact (top ▸ h.trail).tail
  · intro w
    rw [path, h.visited_iff w, top, List.mem_cons, List.mem_cons]
    rw [or_assoc, or_left_comm]
  · exact h.reached
  · exact h.circuits
  · intro w rest suffix u edge
    rcases List.suffix_cons_iff.mp suffix with same | suffix
    · obtain ⟨rfl, rfl⟩ := List.cons.inj same
      obtain ⟨seen, account⟩ := looked u edge
      refine ⟨seen, ?_⟩
      rcases (h.visited_iff u).mp seen with on | before
      · rw [top] at on
        rcases List.mem_cons.mp on with same | on
        · exact absurd (same ▸ edge) (loopless w)
        · exact .inr (account on)
      · exact .inl before
    · exact h.finished w rest suffix u edge

/-- Meeting a node of the path again accounts for the node on which the tour stands. -/
theorem Sound.again (h : Sound g root visited left (.arrive v :: todo) s) (loopless : g.Loopless)
    (old : v ∈ visited) : Sound g root visited left todo (s.note (.again v)) := by
  have begun : root ∈ visited ∨ .arrive root ∈ todo := due_again old h.begun
  by_cases on : v ∈ s.path
  · obtain ⟨p, below, top⟩ := List.exists_cons_of_ne_nil (List.ne_nil_of_mem on)
    have circuit := isCircuit_cycle loopless top h.nodup h.trail (h.awaits.leads top) on
    have first : p ∈ s.cycle v := mem_cycle_of_top top
    rw [note, if_pos on]
    have kept : ∀ {w}, Accounted g s w →
        Accounted g { s with cycles := s.cycles ++ [s.cycle v] } w := by
      rintro w ⟨c, hc, around⟩
      exact ⟨c, List.mem_append_left _ hc, around⟩
    refine { h with begun, awaits := ?_, circuits := ?_, finished := ?_ }
    · refine Awaits.of_looked (h.awaits.mono fun _ _ _ _ looked =>
        ⟨looked.1, fun on => kept (looked.2 on)⟩) fun q below' top' => ⟨old, fun _ => ?_⟩
      obtain ⟨rfl, rfl⟩ := List.cons.inj (top.symm.trans top')
      refine ⟨s.cycle v, List.mem_append_right _ (List.mem_singleton.mpr rfl), fun x hx => ?_⟩
      exact ⟨circuit.reaches first hx, circuit.reaches hx first⟩
    · intro c hc
      rcases List.mem_append.mp hc with hc | hc
      · exact h.circuits c hc
      · rw [List.mem_singleton.mp hc]
        refine ⟨circuit, fun x hx => h.reached x ((h.visited_iff x).mpr (.inl ?_))⟩
        exact mem_path_of_mem_cycle on hx
    · intro w rest suffix u edge
      exact (h.finished w rest suffix u edge).imp_right (Or.imp_right kept)
  · rw [note, if_neg on]
    refine { h with begun, awaits := ?_ }
    exact h.awaits.of_looked fun p below top =>
      ⟨old, fun on' => absurd (top ▸ List.mem_cons_of_mem p on') on⟩

end CycleNotes

variable [DecidableEq V] {root x y : V}

theorem sound_cyclesFrom (closed : g.Closed) (loopless : g.Loopless) (inside : root ∈ g.nodes) :
    ∃ visited left s, CycleNotes.Sound g root visited left [] s ∧ s.cycles = g.cyclesFrom root := by
  obtain ⟨visited, left, sound⟩ := foldl_tourFrom (f := CycleNotes.note)
    (P := fun visited todo s => ∃ left, CycleNotes.Sound g root visited left todo s)
    (fun ⟨left, h⟩ => ⟨_ :: left, h.leave loopless⟩)
    (fun old ⟨left, h⟩ => ⟨left, h.again loopless old⟩)
    (fun new ⟨left, h⟩ => ⟨left, h.enter new⟩)
    (fun ⟨_, h⟩ => h.awaits.mem_nodes closed (by simpa using inside))
    ⟨[], CycleNotes.Sound.start g root⟩
  exact ⟨visited, left, _, sound, rfl⟩

/-- Only circuits are reported, and only such as are reached. -/
theorem circuit_cyclesFrom (closed : g.Closed) (loopless : g.Loopless) (inside : root ∈ g.nodes)
    {c : List V} (hc : c ∈ g.cyclesFrom root) :
    IsCircuit g.Leads c ∧ ∀ x ∈ c, g.Reaches root x := by
  obtain ⟨_, _, s, sound, cycles⟩ := sound_cyclesFrom closed loopless inside
  exact sound.circuits c (cycles ▸ hc)

/-- Of every component of two or more nodes that is reached some circuit is reported. -/
theorem exists_cyclesFrom (closed : g.Closed) (loopless : g.Loopless) (inside : root ∈ g.nodes)
    (hx : g.Reaches root x) (same : g.Mutual x y) (differ : x ≠ y) :
    ∃ c ∈ g.cyclesFrom root, ∀ z ∈ c, g.Mutual x z := by
  obtain ⟨_, _, s, sound, cycles⟩ := sound_cyclesFrom closed loopless inside
  exact cycles ▸ sound.accounted hx same differ

end EntityRules.Digraph
