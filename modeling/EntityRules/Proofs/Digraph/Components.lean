import EntityRules.Proofs.Digraph.Stack

/-! The search for strongly connected components finds them all and nothing else. -/

namespace EntityRules.Digraph

variable {V : Type} {g : Digraph V}

/-- Lists that are just the classes of two or more members of a relation. -/
structure ListsClasses (related : V → V → Prop) (lists : List (List V)) : Prop where
  sized : ∀ l ∈ lists, 2 ≤ l.length
  nodup : ∀ l ∈ lists, l.Nodup
  disjoint : lists.Pairwise List.Disjoint
  members : ∀ l ∈ lists, ∀ u ∈ l, ∀ v, v ∈ l ↔ related u v
  complete : ∀ u v, u ≠ v → related u v → ∃ l ∈ lists, u ∈ l

namespace ComponentNotes

variable {s : ComponentNotes V} {visited : List V} {todo : List (Pending V)} {u v : V} {n : Nat}
  [DecidableEq V]

@[simp] theorem assign_self (table : V → Nat) (v : V) (n : Nat) : assign table v n v = n :=
  if_pos rfl

theorem assign_of_ne (table : V → Nat) (n : Nat) (h : u ≠ v) : assign table v n u = table u :=
  if_neg h

section

variable (new : v ∉ visited)

include new

theorem assign_visited (table : V → Nat) (n : Nat) {w : V} (hw : w ∈ visited) :
    assign table v n w = table w :=
  assign_of_ne _ _ fun same => new (same ▸ hw)

theorem Stacked.enter (h : Stacked visited s) : Stacked (v :: visited) (s.note (.enter v)) := by
  have index : ∀ w ∈ s.stack, assign s.index v s.count w = s.index w :=
    fun w hw => assign_visited new _ _ (h.visited w hw)
  constructor
  · intro w hw
    rcases List.mem_cons.mp hw with rfl | hw
    · exact List.mem_cons_self
    · exact List.mem_cons_of_mem _ (h.visited w hw)
  · intro w hw
    change assign s.index v s.count w < s.count + 1
    rcases List.mem_cons.mp hw with rfl | hw
    · simp
    · rw [index w hw]
      exact Nat.lt_succ_of_lt (h.index_lt w hw)
  · change (v :: s.stack).Pairwise fun a b =>
      assign s.index v s.count b < assign s.index v s.count a
    refine List.pairwise_cons.mpr ⟨fun w hw => ?_, h.sorted.imp_of_mem fun ha hb lt => ?_⟩
    · rw [index w hw, assign_self]
      exact h.index_lt w hw
    · rwa [index _ ha, index _ hb]
  · exact h.path.cons_cons v

theorem Connected.enter (h : Connected g s) (stacked : Stacked visited s)
    (edge : ∀ p path, s.path = p :: path → g.Leads p v) : Connected g (s.note (.enter v)) := by
  have index : ∀ w ∈ s.stack, assign s.index v s.count w = s.index w :=
    fun w hw => assign_visited new _ _ (stacked.visited w hw)
  have low : ∀ p ∈ s.path, assign s.low v s.count p = s.low p :=
    fun p hp => assign_visited new _ _ (stacked.visited p (stacked.mem_stack hp))
  constructor
  · change ∀ p ∈ v :: s.path, ∀ w ∈ v :: s.stack,
      assign s.index v s.count p ≤ assign s.index v s.count w → g.Reaches p w
    intro p hp w hw le
    rcases List.mem_cons.mp hp with rfl | hp
    · rcases List.mem_cons.mp hw with rfl | hw
      · exact .refl _
      · rw [assign_self, index w hw] at le
        exact absurd (stacked.index_lt w hw) (Nat.not_lt.mpr le)
    · rcases List.mem_cons.mp hw with same | hw
      · -- The path leads on from its latest node.
        rw [same]
        cases top : s.path with
        | nil => simp [top] at hp
        | cons t path =>
          have ht : t ∈ s.stack := stacked.mem_stack (top ▸ List.mem_cons_self)
          exact (h.ahead p hp t ht (stacked.index_le_top top hp)).trans (edge t path top).reaches
      · rw [index p (stacked.mem_stack hp), index w hw] at le
        exact h.ahead p hp w hw le
  · change ∀ w ∈ v :: s.stack, ∃ p ∈ v :: s.path,
      assign s.index v s.count p ≤ assign s.index v s.count w ∧ g.Reaches w p
    intro w hw
    rcases List.mem_cons.mp hw with rfl | hw
    · exact ⟨w, List.mem_cons_self, Nat.le_refl _, .refl _⟩
    · obtain ⟨p, hp, le, back⟩ := h.behind w hw
      refine ⟨p, List.mem_cons_of_mem _ hp, ?_, back⟩
      rwa [index p (stacked.mem_stack hp), index w hw]
  · change ∀ p ∈ v :: s.path, assign s.low v s.count p ≤ assign s.index v s.count p
    intro p hp
    rcases List.mem_cons.mp hp with rfl | hp
    · simp
    · rw [low p hp, index p (stacked.mem_stack hp)]
      exact h.low_le p hp
  · change ∀ p ∈ v :: s.path, ∃ w ∈ v :: s.stack,
      assign s.index v s.count w = assign s.low v s.count p ∧ g.Reaches p w
    intro p hp
    rcases List.mem_cons.mp hp with rfl | hp
    · exact ⟨p, List.mem_cons_self, by simp, .refl _⟩
    · obtain ⟨w, hw, same, reached⟩ := h.low_reached p hp
      refine ⟨w, List.mem_cons_of_mem _ hw, ?_, reached⟩
      rw [index w hw, low p hp, same]

theorem Finished.enter (h : Finished g visited s) (stacked : Stacked visited s) :
    Finished g (v :: visited) (s.note (.enter v)) := by
  have index : ∀ w ∈ s.stack, assign s.index v s.count w = s.index w :=
    fun w hw => assign_visited new _ _ (stacked.visited w hw)
  have low : ∀ p ∈ s.path, assign s.low v s.count p = s.low p :=
    fun p hp => assign_visited new _ _ (stacked.visited p (stacked.mem_stack hp))
  have old : ∀ w ∈ visited, w ∈ v :: s.stack → w ∈ s.stack := fun w hw on =>
    (List.mem_cons.mp on).resolve_left fun same => new (same ▸ hw)
  constructor
  · change ∀ w ∈ v :: s.stack, w ∉ v :: s.path → ∀ u, g.Leads w u → u ∈ v :: visited ∧
      (u ∈ v :: s.stack → ∀ p ∈ v :: s.path,
        assign s.index v s.count p ≤ assign s.index v s.count w →
        assign s.low v s.count p ≤ assign s.index v s.count u ∨ ∃ q ∈ v :: s.path,
          assign s.index v s.count p < assign s.index v s.count q ∧
            assign s.index v s.count q ≤ assign s.index v s.count w)
    intro w hw left u edge
    have hw : w ∈ s.stack := (List.mem_cons.mp hw).resolve_left fun same =>
      left (same ▸ List.mem_cons_self)
    obtain ⟨seen, answer⟩ := h.stacked w hw (fun on => left (List.mem_cons_of_mem _ on)) u edge
    refine ⟨List.mem_cons_of_mem _ seen, fun hu p hp le => ?_⟩
    have hu := old u seen hu
    rw [index w hw] at le
    rcases List.mem_cons.mp hp with same | hp
    · rw [same, assign_self] at le
      exact absurd (stacked.index_lt w hw) (Nat.not_lt.mpr le)
    rw [index p (stacked.mem_stack hp)] at le
    rw [low p hp, index p (stacked.mem_stack hp), index u hu, index w hw]
    refine (answer hu p hp le).imp_right ?_
    rintro ⟨q, hq, between⟩
    exact ⟨q, List.mem_cons_of_mem _ hq, by rwa [index q (stacked.mem_stack hq)]⟩
  · intro w hw off u edge
    have hw : w ∈ visited := (List.mem_cons.mp hw).resolve_left fun same =>
      off (same ▸ List.mem_cons_self)
    obtain ⟨seen, away⟩ := h.closed w hw (fun on => off (List.mem_cons_of_mem _ on)) u edge
    exact ⟨List.mem_cons_of_mem _ seen, fun on => away (old u seen on)⟩

end

theorem Sound.enter (h : Sound g visited (.arrive v :: todo) s) (new : v ∉ visited) :
    Sound g (v :: visited) ((g.next v).map .arrive ++ .leave v :: todo) (s.note (.enter v)) := by
  obtain ⟨nodes, awaits, stacked, connected, finished, reported⟩ := h
  constructor
  · exact fun w hw => due_enter (nodes w hw)
  · have path : ∀ {p below}, p :: below <:+ s.path → p ∈ s.stack := fun suffix =>
      stacked.mem_stack (suffix.subset List.mem_cons_self)
    have kept : Awaits g g.nodes (fun _ => (s.note (.enter v)).Looked (v :: visited)) s.path
        (.arrive v :: todo) := by
      refine awaits.mono fun below p u suffix looked => ?_
      refine ⟨List.mem_cons_of_mem _ looked.1, fun on => ?_⟩
      change assign s.low v s.count p ≤ assign s.index v s.count u
      have hu : u ∈ s.stack := (List.mem_cons.mp on).resolve_left fun same => new (same ▸ looked.1)
      rw [assign_visited new _ _ (stacked.visited p (path suffix)),
        assign_visited new _ _ looked.1]
      exact looked.2 hu
    refine (kept.of_looked fun p below top => ?_).enter v
    have hp : p ∈ s.path := top ▸ List.mem_cons_self
    have hp' := stacked.mem_stack hp
    refine ⟨List.mem_cons_self, fun _ => ?_⟩
    change assign s.low v s.count p ≤ assign s.index v s.count v
    rw [assign_visited new _ _ (stacked.visited p hp'), assign_self]
    exact (connected.low_le p hp).trans (stacked.index_lt p hp').le
  · exact stacked.enter new
  · exact connected.enter new stacked fun _ _ top => awaits.leads top
  · exact finished.enter new stacked
  · have same : ∀ w, (w ∈ v :: visited ∧ w ∉ v :: s.stack) ↔ w ∈ visited ∧ w ∉ s.stack := by
      intro w
      by_cases hw : w = v
      · subst hw
        simp [new]
      · simp [hw]
    have closed : (fun w => w ∈ v :: visited ∧ w ∉ v :: s.stack) =
        fun w => w ∈ visited ∧ w ∉ s.stack := funext fun w => propext (same w)
    change Reported g (fun w => w ∈ v :: visited ∧ w ∉ v :: s.stack) s.components
    rwa [closed]

section

variable (s) (n)

@[simp] theorem lower_index : (s.lower n).index = s.index := by
  unfold lower
  split <;> rfl

@[simp] theorem lower_count : (s.lower n).count = s.count := by
  unfold lower
  split <;> rfl

@[simp] theorem lower_path : (s.lower n).path = s.path := by
  unfold lower
  split <;> simp_all

@[simp] theorem lower_stack : (s.lower n).stack = s.stack := by
  unfold lower
  split <;> rfl

@[simp] theorem lower_components : (s.lower n).components = s.components := by
  unfold lower
  split <;> rfl

theorem lower_low_le (p : V) : (s.lower n).low p ≤ s.low p := by
  unfold lower
  split
  · exact Nat.le_refl _
  · next v _ _ =>
    by_cases same : p = v
    · rw [same]
      exact (assign_self s.low v _).trans_le (Nat.min_le_left _ _)
    · exact (assign_of_ne _ _ same).le

end

theorem lower_low_top {path : List V} (top : s.path = v :: path) :
    (s.lower n).low v = min (s.low v) n := by
  simp [lower, top]

theorem lower_low_of_ne {path : List V} (top : s.path = v :: path) (differ : u ≠ v) :
    (s.lower n).low u = s.low u := by
  simp [lower, top, assign_of_ne _ _ differ]

/-- Nothing is lowered below what is known already. -/
theorem lower_eq_self (known : ∀ p path, s.path = p :: path → s.low p ≤ n) : s.lower n = s := by
  unfold lower
  split
  · rfl
  · next p path top =>
    have same : assign s.low p (min (s.low p) n) = s.low := by
      funext w
      by_cases hw : w = p
      · rw [hw, assign_self, Nat.min_eq_left (known p path top)]
      · exact assign_of_ne _ _ hw
    rw [same]

theorem Stacked.lower (h : Stacked visited s) (n : Nat) : Stacked visited (s.lower n) := by
  constructor
  · simpa using h.visited
  · simpa using h.index_lt
  · simpa using h.sorted
  · simpa using h.path

/-- A bound may be lowered to the index of a node that is reached. -/
theorem Connected.lower (h : Connected g s) {path : List V} (top : s.path = v :: path) {w : V}
    (hw : w ∈ s.stack) (reached : g.Reaches v w) : Connected g (s.lower (s.index w)) := by
  constructor
  · simpa using h.ahead
  · simpa using h.behind
  · simp only [lower_path, lower_index]
    exact fun p hp => (lower_low_le s _ p).trans (h.low_le p hp)
  · simp only [lower_path, lower_stack, lower_index]
    intro p hp
    by_cases same : p = v
    · rw [same, lower_low_top top]
      rcases Nat.le_total (s.low v) (s.index w) with old | new
      · rw [Nat.min_eq_left old]
        exact h.low_reached v (same ▸ hp)
      · exact ⟨w, hw, (Nat.min_eq_right new).symm, reached⟩
    · rw [lower_low_of_ne top same]
      exact h.low_reached p hp

theorem Looked.lower (h : s.Looked visited v u) (n : Nat) : (s.lower n).Looked visited v u := by
  refine ⟨h.1, fun on => ?_⟩
  rw [lower_stack] at on
  rw [lower_index]
  exact (lower_low_le s n v).trans (h.2 on)

theorem Finished.lower (h : Finished g visited s) (n : Nat) : Finished g visited (s.lower n) := by
  constructor
  · simp only [lower_path, lower_stack, lower_index]
    intro w hw left u edge
    obtain ⟨seen, answer⟩ := h.stacked w hw left u edge
    refine ⟨seen, fun on p hp le => (answer on p hp le).imp_left ?_⟩
    exact (lower_low_le s n p).trans
  · simpa using h.closed

theorem Sound.again (h : Sound g visited (.arrive v :: todo) s) (old : v ∈ visited) :
    Sound g visited todo (s.note (.again v)) := by
  obtain ⟨nodes, awaits, stacked, connected, finished, reported⟩ := h
  have nodes : ∀ w ∈ g.nodes, w ∈ visited ∨ .arrive w ∈ todo :=
    fun w hw => due_again old (nodes w hw)
  by_cases on : v ∈ s.stack
  · rw [note, if_pos on]
    have kept : Awaits g g.nodes (fun _ => (s.lower (s.index v)).Looked visited) s.path
        (.arrive v :: todo) := awaits.mono fun _ _ _ _ looked => looked.lower _
    cases top : s.path with
    | nil =>
      obtain ⟨p, hp, -⟩ := connected.behind v on
      simp [top] at hp
    | cons t path =>
      have edge : g.Leads t v := awaits.leads top
      refine ⟨nodes, ?_, stacked.lower _, connected.lower top on edge.reaches, finished.lower _, ?_⟩
      · rw [lower_path]
        refine kept.of_looked fun p below top' => ⟨old, fun _ => ?_⟩
        rw [lower_low_top top', lower_index]
        exact Nat.min_le_right _ _
      · simpa using reported
  · rw [note, if_neg on]
    refine ⟨nodes, ?_, stacked, connected, finished, reported⟩
    exact awaits.of_looked fun p below _ => ⟨old, fun on' => absurd on' on⟩

section

variable {path : List V} (top : s.path = v :: path)

include top

/-- The notes when a node is left whose component is not closed with it. -/
theorem note_leave (h : Stacked visited s) (stays : s.low v ≠ s.index v) :
    s.note (.leave v) = { s with path }.lower (s.low v) := by
  have low : ({ s with path }.lower (s.low v)).low v = s.low v := by
    cases path with
    | nil => rfl
    | cons p path =>
      exact lower_low_of_ne rfl fun same => h.not_mem_below top (same ▸ List.mem_cons_self)
  simp only [note, top, List.tail_cons]
  rw [if_neg]
  rw [low, lower_index]
  exact stays

/-- The notes when a node is left that closes its component. -/
theorem note_leave_close (h : Sound g visited todo s) (closes : s.low v = s.index v) :
    s.note (.leave v) = { s with path }.close v := by
  have same : { s with path }.lower (s.low v) = { s with path } := by
    refine lower_eq_self fun p below top' => ?_
    have hp : p ∈ path := by
      change path = p :: below at top'
      exact top' ▸ List.mem_cons_self
    have le := h.connected.low_le p (top ▸ List.mem_cons_of_mem _ hp)
    have lt := h.stacked.index_lt_top top hp
    change s.low p ≤ s.low v
    omega
  simp only [note, top, List.tail_cons, same]
  exact if_pos closes

/-- The node below answers for the node that is left, and for those that it answered for. -/
theorem Sound.finished_below (h : Sound g visited todo s)
    (looked : ∀ u, g.Leads v u → s.Looked visited v u) :
    Finished g visited ({ s with path }.lower (s.low v)) := by
  refine ⟨?_, by simpa using h.finished.closed⟩
  simp only [lower_path, lower_stack, lower_index]
  -- What the node on top of the path answers for, the one below answers for from now on.
  have answer : ∀ w, s.index v ≤ s.index w → ∀ u, s.low v ≤ s.index u → ∀ p ∈ path,
      ({ s with path }.lower (s.low v)).low p ≤ s.index u ∨
        ∃ q ∈ path, s.index p < s.index q ∧ s.index q ≤ s.index w := by
    intro w above u le p hp
    cases below : path with
    | nil => simp [below] at hp
    | cons t rest =>
      have top' : ({ s with path := t :: rest } : ComponentNotes V).path = t :: rest := rfl
      by_cases same : p = t
      · left
        rw [same, lower_low_top top']
        exact (Nat.min_le_right _ _).trans le
      · right
        have ht : t ∈ path := below ▸ List.mem_cons_self
        refine ⟨t, List.mem_cons_self, ?_, (h.stacked.index_lt_top top ht).le.trans above⟩
        have hp : p ∈ rest := (List.mem_cons.mp (below ▸ hp)).resolve_left same
        exact (h.stacked.below top).index_lt_top (v := t) below hp
  intro w hw left u edge
  by_cases same : w = v
  · rw [same] at edge ⊢
    obtain ⟨seen, le⟩ := looked u edge
    exact ⟨seen, fun on p hp _ => answer v (Nat.le_refl _) u (le on) p hp⟩
  · have left : w ∉ s.path := by
      rw [top]
      exact List.not_mem_cons_of_ne_of_not_mem same left
    obtain ⟨seen, old⟩ := h.finished.stacked w hw left u edge
    refine ⟨seen, fun on p hp le => ?_⟩
    rcases old on p (top ▸ List.mem_cons_of_mem _ hp) le with lower | ⟨q, hq, lt, between⟩
    · exact .inl ((lower_low_le _ _ p).trans lower)
    · rw [top] at hq
      rcases List.mem_cons.mp hq with last | hq
      · rw [last] at between
        have hv : v ∈ s.path := top ▸ List.mem_cons_self
        rcases old on v hv between with low | ⟨r, hr, above, -⟩
        · exact answer w between u low p hp
        · exact absurd above (Nat.not_lt.mpr (h.stacked.index_le_top top hr))
      · exact .inr ⟨q, hq, lt, between⟩

end

theorem Sound.leave_open (h : Sound g visited (.leave v :: todo) s) (differ : s.low v ≠ s.index v) :
    Sound g visited todo (s.note (.leave v)) := by
  obtain ⟨path, top, looked, awaits⟩ := h.awaits.of_leave
  have hv : v ∈ s.path := top ▸ List.mem_cons_self
  rw [note_leave top h.stacked differ]
  refine ⟨fun w hw => due_leave (h.nodes w hw), ?_, (h.stacked.below top).lower _, ?_,
    h.finished_below top looked, ?_⟩
  · rw [lower_path]
    exact awaits.mono fun _ _ _ _ known => Looked.lower (s := { s with path }) known _
  · cases below : path with
    | nil =>
      obtain ⟨p, hp, -⟩ := h.low_lt top differ
      simp [below] at hp
    | cons t rest =>
      obtain ⟨w, hw, index, reached⟩ := h.connected.low_reached v hv
      have ht : t ∈ path := below ▸ List.mem_cons_self
      have down : g.Reaches t v := h.connected.ahead t (top ▸ List.mem_cons_of_mem _ ht) v
        (h.stacked.mem_stack hv) (h.stacked.index_lt_top top ht).le
      have connected := h.connected_below top differ
      rw [below] at connected
      rw [← index]
      exact connected.lower (w := w) rfl hw (down.trans reached)
  · simpa using h.reported

theorem Stacked.cut (h : Stacked visited s) (hv : v ∈ s.stack) :
    ∃ above below, Cut s v above below ∧ s.stack.takeWhile (· ≠ v) = above ∧
      (s.stack.dropWhile (· ≠ v)).tail = below := by
  obtain ⟨above, below, split, new⟩ := List.eq_append_cons_of_mem hv
  have sorted := h.sorted
  rw [split, List.pairwise_append, List.pairwise_cons] at sorted
  obtain ⟨-, ⟨low, -⟩, high⟩ := sorted
  refine ⟨above, below, ⟨split, fun w hw => high w hw v List.mem_cons_self, low⟩, ?_, ?_⟩
  · rw [split, takeWhile_ne below new]
  · rw [split, dropWhile_ne below new, List.tail_cons]

theorem Sound.leave_closed (h : Sound g visited (.leave v :: todo) s)
    (closes : s.low v = s.index v) : Sound g visited todo (s.note (.leave v)) := by
  obtain ⟨path, top, looked, awaits⟩ := h.awaits.of_leave
  have hv : v ∈ s.stack := h.stacked.mem_stack (top ▸ List.mem_cons_self)
  obtain ⟨above, below, cut, taken, rest⟩ := h.stacked.cut hv
  have notes : s.note (.leave v) = { s with
      path, stack := below
      components := if 1 < (above ++ [v]).length then s.components ++ [above ++ [v]]
        else s.components } := by
    rw [note_leave_close top h closes]
    simp only [close, taken, rest]
  rw [notes]
  refine ⟨fun w hw => due_leave (h.nodes w hw), ?_, h.stacked.drop top cut, h.connected_drop top cut,
    h.finished_drop top looked closes cut, ?_⟩
  · exact awaits.mono fun _ _ _ _ known => ⟨known.1, fun on => known.2 (cut.mem_stack on)⟩
  · refine h.reported.add (v := v) (fun u => ?_) (cut.nodup h.stacked) ?_ fun u => ?_
    · exact (cut.mem_part_iff u).trans (h.mem_component_iff top looked closes u)
    · exact fun u hu done => done.2 ((cut.mem_part_iff u).mp hu).1
    · have off : u ∉ below ↔ u ∉ s.stack ∨ u ∈ above ++ [v] := by
        rw [cut.mem_below_iff, cut.mem_part_iff]
        by_cases on : u ∈ s.stack <;> simp [on]
      constructor
      · rintro ⟨seen, away⟩
        exact (off.mp away).imp_left fun away => ⟨seen, away⟩
      · rintro (⟨seen, away⟩ | part)
        · exact ⟨seen, off.mpr (.inl away)⟩
        · exact ⟨h.stacked.visited u ((cut.mem_part_iff u).mp part).1, off.mpr (.inr part)⟩

theorem Sound.leave (h : Sound g visited (.leave v :: todo) s) :
    Sound g visited todo (s.note (.leave v)) := by
  by_cases closes : s.low v = s.index v
  · exact h.leave_closed closes
  · exact h.leave_open closes

omit [DecidableEq V] in
theorem Sound.start (g : Digraph V) : Sound g [] (g.nodes.map .arrive) .start := by
  refine ⟨fun v hv => .inr (List.mem_map_of_mem hv), .start fun _ hv => hv, ?_, ?_, ?_, ?_⟩ <;>
    constructor <;> simp [ComponentNotes.start]

omit [DecidableEq V] in
/-- With nothing left to do, every component is closed. -/
theorem Sound.listsClasses (h : Sound g visited [] s) (closed : g.Closed) :
    ListsClasses g.Mutual s.components := by
  have path : s.path = [] := h.awaits.of_done
  have stack : s.stack = [] := by
    rw [List.eq_nil_iff_forall_not_mem]
    intro w hw
    obtain ⟨p, hp, -⟩ := h.connected.behind w hw
    simp [path] at hp
  refine ⟨h.reported.sized, h.reported.nodup, h.reported.disjoint, h.reported.members, ?_⟩
  intro u v differ same
  have seen : u ∈ visited :=
    (h.nodes u (same.mem_nodes closed differ)).resolve_right List.not_mem_nil
  exact h.reported.complete u v ⟨seen, by simp [stack]⟩ differ same

end ComponentNotes

open ComponentNotes in
/-- The search lists just the strongly connected components with two or more members. -/
theorem listsClasses_components [DecidableEq V] (closed : g.Closed) :
    ListsClasses g.Mutual g.components := by
  obtain ⟨visited, sound⟩ := foldl_tourFrom (P := Sound g) (f := note)
    (fun h => h.leave) (fun old h => h.again old) (fun new h => h.enter new)
    (fun h => h.awaits.mem_nodes closed fun _ hv => hv) (Sound.start g)
  exact sound.listsClasses closed

end EntityRules.Digraph
