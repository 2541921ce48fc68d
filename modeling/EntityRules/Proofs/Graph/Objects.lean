import EntityRules.Graph.Objects
import EntityRules.Proofs.Graph.Coherence

/-! What holds of a graph whose edges are objects, along every run. -/

namespace EntityRules

open RelationshipGraph (Keyed edgesOf under place under_put under_putEdges putEdges)

variable {ι α : Type}

/-- Edges of which those that are one object are the same, and those that share their notes have the
same notes. -/
structure EdgeObject.Consistent (es : List (EdgeObject ι α)) : Prop where
  edges : ∀ e ∈ es, ∀ o ∈ es, e.object = o.object → e = o
  notes : ∀ e ∈ es, ∀ o ∈ es, e.notes = o.notes → e.edge.metadata = o.edge.metadata

theorem EdgeObject.Consistent.mono {es es' : List (EdgeObject ι α)} (h : Consistent es)
    (sub : ∀ e ∈ es', e ∈ es) : Consistent es' where
  edges e he o ho := h.edges e (sub e he) o (sub o ho)
  notes e he o ho := h.notes e (sub e he) o (sub o ho)

/-- Edges none of which shares anything are consistent. -/
theorem EdgeObject.Consistent.of_nodup {es : List (EdgeObject ι α)}
    (objects : (es.map (·.object)).Nodup) (notes : (es.map (·.notes)).Nodup) : Consistent es where
  edges _ he _ ho same := List.inj_on_of_nodup_map objects he ho same
  notes _ he _ ho same := congrArg (·.edge.metadata) (List.inj_on_of_nodup_map notes he ho same)

theorem EdgeObject.Consistent.cons_new {es : List (EdgeObject ι α)} {e : EdgeObject ι α}
    (h : Consistent es) (new : ∀ o ∈ es, o.object ≠ e.object ∧ o.notes ≠ e.notes) :
    Consistent (e :: es) := by
  constructor
  · intro a ha b hb same
    rcases List.mem_cons.mp ha with new_a | old_a <;> rcases List.mem_cons.mp hb with new_b | old_b
    · rw [new_a, new_b]
    · exact absurd (new_a ▸ same).symm (new b old_b).1
    · exact absurd (new_b ▸ same) (new a old_a).1
    · exact h.edges a old_a b old_b same
  · intro a ha b hb same
    rcases List.mem_cons.mp ha with new_a | old_a <;> rcases List.mem_cons.mp hb with new_b | old_b
    · rw [new_a, new_b]
    · exact absurd (new_a ▸ same).symm (new b old_b).2
    · exact absurd (new_b ▸ same) (new a old_a).2
    · exact h.notes a old_a b old_b same

/-- A snapshot that lists no edge twice. -/
def ObjectSnapshot.ListsOnce (s : ObjectSnapshot α) : Prop :=
  ((edgesOf s.relationships).map (·.object)).Nodup

instance (s : ObjectSnapshot α) : Decidable s.ListsOnce :=
  inferInstanceAs (Decidable (List.Nodup _))

/-- What is done with a graph of objects. -/
inductive ObjectStep (α : Type) where
  | register (id : String) (now : Moment)
  | add (e : EdgeObject Nat α) (now : Moment)
  | remove (source target : String) (type : Option String) (now : Moment)
  | load (s : ObjectSnapshot α)
  | validate (now : Moment)
  | clearCaches
  | analyze (id : String) (now : Moment)
  | path (source target : String) (hops : Option (Extent Float))

namespace ObjectStep

/-- The graph after a step. -/
def apply [Scalar α] (g : ObjectGraph α) : ObjectStep α → ObjectGraph α
  | register id now => g.register id now
  | add e now => g.add e.given now
  | remove source target type now => (g.remove source target type now).2
  | load s => g.load s
  | validate now => (g.validate now).2
  | clearCaches => g.clearCaches
  | analyze id now => (g.analyze id now).2
  | path source target hops => (g.path source target hops).2

/-- What is handed in says the same as what it shares objects with. -/
def Fits (g : ObjectGraph α) : ObjectStep α → Prop
  | add e _ => EdgeObject.Consistent (e.given :: g.edges)
  | load s => EdgeObject.Consistent (edgesOf s.relationships)
  | _ => True

end ObjectStep

namespace ObjectGraph

open EdgeObject (Consistent)

/-- The graphs that steps lead to from an empty one, if the snapshots that are loaded are of a kind.
-/
inductive Reachable [Scalar α] (kind : ObjectSnapshot α → Prop) : ObjectGraph α → Prop where
  | created {options : GraphOptions α} {now : Moment} {g : ObjectGraph α} :
    create options now = .ok g → Reachable kind g
  | step {g : ObjectGraph α} (s : ObjectStep α) :
    Reachable kind g → s.Fits g → (∀ t, s = .load t → kind t) → Reachable kind (s.apply g)

variable {g : ObjectGraph α} {e : EdgeObject Origin α} {now : Moment}

theorem under_edgeValues (ms : Members (List (EdgeObject ι α))) (name : String) :
    under (edgeValues ms) name = (under ms name).map (·.edge) :=
  RelationshipGraph.under_map ..

theorem edges_view (g : ObjectGraph α) : g.view.edges = g.edges.map (·.edge) :=
  RelationshipGraph.edgesOf_map ..

theorem outgoingOf_view (g : ObjectGraph α) (id : String) :
    g.view.outgoingOf id = (g.outgoingOf id).map (·.edge) := under_edgeValues ..

theorem incomingOf_view (g : ObjectGraph α) (id : String) :
    g.view.incomingOf id = (g.incomingOf id).map (·.edge) := under_edgeValues ..

/-- What every step keeps. -/
structure Coherent (g : ObjectGraph α) : Prop where
  bySource : Keyed (·.edge.source) g.outgoing
  byTarget : Keyed (·.edge.target) g.incoming
  keys : ∀ s t, ((g.outgoingOf s).map (·.key)).filter (·.2.1 = t) =
    ((g.incomingOf t).map (·.key)).filter (·.1 = s)
  stored : ∀ e ∈ edgesOf g.incoming, e ∈ g.edges
  consistent : Consistent g.edges
  totalNodes : g.metadata.totalNodes = g.view.nodes.length
  totalEdges : g.metadata.totalEdges = g.view.edges.length

theorem Coherent.paired (h : Coherent g) : g.view.Paired where
  bySource := h.bySource.map fun _ => rfl
  byTarget := h.byTarget.map fun _ => rfl
  agree s t := by
    rw [outgoingOf_view, incomingOf_view, List.map_map, List.map_map]
    exact h.keys s t
  totalNodes := h.totalNodes
  totalEdges := h.totalEdges

/-- What every step keeps as long as no snapshot lists an edge twice. An edge that was handed in
stands in front of all others with its key, so that it comes to no second place when it is stored
again. -/
structure Separate (g : ObjectGraph α) : Prop where
  agree : ∀ s t, (g.outgoingOf s).filter (·.edge.target = t) =
    (g.incomingOf t).filter (·.edge.source = s)
  distinct : ∀ s, ((g.outgoingOf s).map (·.object)).Nodup
  first : ∀ s n, ∀ e ∈ g.outgoingOf s, e.object = .given n →
    (g.outgoingOf s).find? (·.key = e.key) = some e

theorem Coherent.coherent_view (h : Coherent g) (apart : Separate g) : g.view.Coherent where
  bySource := h.paired.bySource
  byTarget := h.paired.byTarget
  agree s t := by
    rw [outgoingOf_view, incomingOf_view, List.filter_map, List.filter_map]
    exact congrArg (List.map (·.edge)) (apart.agree s t)
  totalNodes := h.totalNodes
  totalEdges := h.totalEdges

/-- The first edge with a key gives way to the one that is put in its place. -/
theorem place_of_find? {edges : List (EdgeObject Origin α)} {old : EdgeObject Origin α}
    (found : edges.find? (·.key = e.key) = some old) :
    ∃ before behind, edges = before ++ old :: behind ∧ old.key = e.key ∧
      (∀ o ∈ before, o.key ≠ e.key) ∧ place EdgeObject.key e edges = before ++ e :: behind := by
  induction edges with
  | nil => cases found
  | cons o rest ih =>
    by_cases same : o.key = e.key
    · rw [List.find?_cons_of_pos (by simpa using same)] at found
      cases found
      exact ⟨[], rest, rfl, same, List.forall_mem_nil _, by rw [place, if_pos same]; rfl⟩
    · rw [List.find?_cons_of_neg (by simpa using same)] at found
      obtain ⟨before, behind, rfl, key, others, placed⟩ := ih found
      refine ⟨o :: before, behind, rfl, key, List.forall_mem_cons.mpr ⟨same, others⟩, ?_⟩
      rw [place, if_neg same, placed]
      rfl

theorem place_of_find?_none {edges : List (EdgeObject Origin α)}
    (new : edges.find? (·.key = e.key) = none) :
    place EdgeObject.key e edges = edges ++ [e] := by
  refine RelationshipGraph.place_of_new fun o ho => ?_
  simpa using List.find?_eq_none.mp new o ho

/-- Edges that an edge does not take the place of stay. -/
theorem mem_place_of_find?_ne {o : EdgeObject Origin α} {edges : List (EdgeObject Origin α)}
    (mem : o ∈ edges) (kept : edges.find? (·.key = e.key) ≠ some o) :
    o ∈ place EdgeObject.key e edges := by
  cases found : edges.find? (·.key = e.key) with
  | none =>
    rw [place_of_find?_none found]
    exact List.mem_append_left _ mem
  | some old =>
    obtain ⟨before, behind, rfl, -, -, placed⟩ := place_of_find? found
    have differs : o ≠ old := fun same => kept (same ▸ found)
    rw [placed]
    rcases List.mem_append.mp mem with mem | mem
    · exact List.mem_append_left _ mem
    · rcases List.mem_cons.mp mem with same | mem
      · exact absurd same differs
      · exact List.mem_append_right _ (List.mem_cons_of_mem _ mem)

/-- The edge that storing one looks for under its source. -/
def replacedBy (g : ObjectGraph α) (e : EdgeObject Origin α) : Option (EdgeObject Origin α) :=
  (g.outgoingOf e.edge.source).find? (·.key = e.key)

theorem Coherent.mem_edges_iff (h : Coherent g) {o : EdgeObject Origin α} :
    o ∈ g.edges ↔ o ∈ g.outgoingOf o.edge.source :=
  h.bySource.mem_edgesOf_iff

theorem Coherent.mem_of_outgoingOf (h : Coherent g) {id : String} {o : EdgeObject Origin α}
    (mem : o ∈ g.outgoingOf id) : o ∈ g.edges := by
  rw [h.mem_edges_iff, h.bySource.key_eq mem]
  exact mem

theorem Coherent.mem_of_incomingOf (h : Coherent g) {id : String} {o : EdgeObject Origin α}
    (mem : o ∈ g.incomingOf id) : o ∈ g.edges := by
  rw [incomingOf, ← under, ← h.byTarget.filter_edgesOf, List.mem_filter] at mem
  exact h.stored o mem.1

/-- The edge that is replaced stands under its source and has the key of the new one. -/
theorem Coherent.of_replacedBy (h : Coherent g) {old : EdgeObject Origin α}
    (found : g.replacedBy e = some old) : old ∈ g.edges ∧ old.key = e.key :=
  ⟨h.mem_of_outgoingOf (List.mem_of_find?_eq_some found), by
    simpa using List.find?_some found⟩

/-- Wherever the object that is replaced stands, it is the same edge. -/
theorem Coherent.eq_replaced (h : Coherent g) {old : EdgeObject Origin α}
    (found : g.replacedBy e = some old) {id : String} :
    ∀ o ∈ g.incomingOf id, o.object = old.object → o = old :=
  fun o ho same => h.consistent.edges o (h.mem_of_incomingOf ho) old (h.of_replacedBy found).1 same

/-- Storing an edge adds its key on both sides, or on none if the key is there. -/
theorem Coherent.keys_add (h : Coherent g) (e : EdgeObject Origin α) :
    ∃ more, (more = [] ∨ more = [e.key]) ∧
      (place EdgeObject.key e (g.outgoingOf e.edge.source)).map (·.key) =
        (g.outgoingOf e.edge.source).map (·.key) ++ more ∧
      (exchange e (g.replacedBy e) (g.incomingOf e.edge.target)).map (·.key) =
        (g.incomingOf e.edge.target).map (·.key) ++ more := by
  cases found : g.replacedBy e with
  | none =>
    refine ⟨[e.key], .inr rfl, ?_, by simp [exchange]⟩
    rw [place_of_find?_none found, List.map_append]
    rfl
  | some old =>
    obtain ⟨before, behind, stand, key, -, placed⟩ := place_of_find? found
    refine ⟨[], .inl rfl, ?_, ?_⟩
    · rw [placed, stand]
      simp [key]
    · rw [exchange, List.map_map, List.append_nil]
      refine List.map_congr_left fun o ho => ?_
      by_cases same : o.object = old.object
      · simp [h.eq_replaced found o ho same, key]
      · simp [same]

theorem Coherent.exchange_ne_nil (h : Coherent g) (e : EdgeObject Origin α) :
    exchange e (g.replacedBy e) (g.incomingOf e.edge.target) ≠ [] := by
  cases found : g.replacedBy e with
  | none => simp [exchange]
  | some old =>
    intro empty
    have none_there : g.incomingOf e.edge.target = [] := List.map_eq_nil_iff.mp empty
    have none_here := h.keys e.edge.source e.edge.target
    rw [none_there] at none_here
    have key := (h.of_replacedBy found).2
    have own : old.key ∈ (g.outgoingOf e.edge.source).map (·.key) :=
      List.mem_map_of_mem (List.mem_of_find?_eq_some found)
    refine List.filter_eq_nil_iff.mp none_here old.key own ?_
    rw [key]
    exact decide_eq_true rfl

theorem mem_exchange {o : EdgeObject Origin α} {replaced : Option (EdgeObject Origin α)}
    {edges : List (EdgeObject Origin α)} (mem : o ∈ exchange e replaced edges) :
    o = e ∨ o ∈ edges ∧ replaced ≠ some o := by
  cases replaced with
  | none => simpa [exchange, or_comm] using mem
  | some old =>
    obtain ⟨o', ho', rfl⟩ := List.mem_map.mp mem
    split
    · exact .inl rfl
    · next differs =>
      refine .inr ⟨ho', fun same => differs ?_⟩
      rw [Option.some.inj same]

theorem outgoingOf_add (g : ObjectGraph α) (e : EdgeObject Origin α) (now : Moment) (id : String) :
    (g.add e now).outgoingOf id = if e.edge.source = id then
      place EdgeObject.key e (g.outgoingOf e.edge.source) else g.outgoingOf id :=
  under_put ..

theorem incomingOf_add (g : ObjectGraph α) (e : EdgeObject Origin α) (now : Moment) (id : String) :
    (g.add e now).incomingOf id = if e.edge.target = id then
      exchange e (g.replacedBy e) (g.incomingOf e.edge.target) else g.incomingOf id :=
  under_put ..

theorem Coherent.bySource_add (h : Coherent g) (e : EdgeObject Origin α) (now : Moment) :
    Keyed (·.edge.source) (g.add e now).outgoing := by
  refine h.bySource.put (RelationshipGraph.place_ne_nil EdgeObject.key e _) fun o ho => ?_
  rcases RelationshipGraph.mem_place ho with rfl | ho
  · rfl
  · exact h.bySource.key_eq ho

theorem Coherent.byTarget_add (h : Coherent g) (e : EdgeObject Origin α) (now : Moment) :
    Keyed (·.edge.target) (g.add e now).incoming := by
  refine h.byTarget.put (h.exchange_ne_nil e) fun o ho => ?_
  rcases mem_exchange ho with rfl | ⟨ho, -⟩
  · rfl
  · exact h.byTarget.key_eq ho

/-- The new edge is stored, and so are those that it does not take the place of. -/
theorem Coherent.mem_edges_add (h : Coherent g) {o : EdgeObject Origin α}
    (mem : o = e ∨ o ∈ g.edges ∧ g.replacedBy e ≠ some o) : o ∈ (g.add e now).edges := by
  apply (h.bySource_add e now).mem_edgesOf_iff.mpr
  change o ∈ (g.add e now).outgoingOf o.edge.source
  rw [outgoingOf_add]
  rcases mem with rfl | ⟨old, kept⟩
  · rw [if_pos rfl]
    exact RelationshipGraph.mem_place_self ..
  · have own := h.mem_edges_iff.mp old
    split
    · next same =>
      rw [← same] at own
      exact mem_place_of_find?_ne own kept
    · exact own

theorem Coherent.of_mem_edges_add (h : Coherent g) {o : EdgeObject Origin α}
    (mem : o ∈ (g.add e now).edges) : o = e ∨ o ∈ g.edges := by
  replace mem := (h.bySource_add e now).mem_edgesOf_iff.mp mem
  change o ∈ (g.add e now).outgoingOf o.edge.source at mem
  rw [outgoingOf_add] at mem
  split at mem
  · exact (RelationshipGraph.mem_place mem).imp_right h.mem_of_outgoingOf
  · exact .inr (h.mem_of_outgoingOf mem)

/-- An edge that is not replaced stays under its target. One that stands under another target than
the new edge has another key. -/
theorem Coherent.stored_add (h : Coherent g) (e : EdgeObject Origin α) (now : Moment) :
    ∀ o ∈ edgesOf (g.add e now).incoming, o ∈ (g.add e now).edges := by
  intro o ho
  apply h.mem_edges_add
  replace ho := (h.byTarget_add e now).mem_edgesOf_iff.mp ho
  change o ∈ (g.add e now).incomingOf o.edge.target at ho
  rw [incomingOf_add] at ho
  split at ho
  · exact (mem_exchange ho).imp_right fun ⟨mem, kept⟩ => ⟨h.mem_of_incomingOf mem, kept⟩
  · next differ =>
    refine .inr ⟨h.mem_of_incomingOf ho, fun found => differ ?_⟩
    exact (congrArg (·.2.1) (h.of_replacedBy found).2).symm

theorem coherent_add (h : Coherent g) (fits : Consistent (e :: g.edges)) (now : Moment) :
    Coherent (g.add e now) where
  bySource := h.bySource_add e now
  byTarget := h.byTarget_add e now
  keys s t := by
    obtain ⟨more, own, outgoing, incoming⟩ := h.keys_add e
    have agree := h.keys s t
    have further : ∀ p : String × String × RelationshipType → Bool,
        more.filter p = if p e.key then more else [] := by
      intro p
      rcases own with rfl | rfl
      · exact (ite_self _).symm
      · rw [List.filter_singleton, Bool.cond_eq_ite]
    have source_key : e.key.1 = e.edge.source := rfl
    have target_key : e.key.2.1 = e.edge.target := rfl
    rw [outgoingOf_add, incomingOf_add]
    by_cases source : e.edge.source = s <;> by_cases target : e.edge.target = t
    · rw [if_pos source, if_pos target, outgoing, incoming, List.filter_append, List.filter_append,
        further, further, source, target, agree]
      simp [source_key, target_key, source, target]
    · rw [if_pos source, if_neg target, outgoing, List.filter_append, further, source, agree]
      simp [target_key, target]
    · rw [if_neg source, if_pos target, incoming, List.filter_append, further, target, agree]
      simp [source_key, source]
    · rw [if_neg source, if_neg target, agree]
  stored := h.stored_add e now
  consistent := fits.mono fun o ho => List.mem_cons.mpr (h.of_mem_edges_add ho)
  totalNodes := rfl
  totalEdges := rfl

theorem find?_place (e : EdgeObject Origin α) (edges : List (EdgeObject Origin α))
    (k : String × String × RelationshipType) :
    (place EdgeObject.key e edges).find? (·.key = k) =
      if e.key = k then some e else edges.find? (·.key = k) := by
  induction edges with
  | nil => by_cases same : e.key = k <;> simp [place, same]
  | cons o rest ih =>
    rw [place]
    by_cases first : o.key = e.key
    · rw [if_pos first]
      by_cases same : e.key = k <;> simp [first, same]
    · rw [if_neg first, List.find?_cons, List.find?_cons, ih]
      by_cases same : e.key = k
      · simp [same, same ▸ first]
      · simp [same]

/-- Objects that differ still do after one of them, or the very object that comes, gave way. -/
theorem nodup_place {edges : List (EdgeObject Origin α)} (distinct : (edges.map (·.object)).Nodup)
    (known : ∀ o ∈ edges, o.object = e.object → edges.find? (·.key = e.key) = some o) :
    ((place EdgeObject.key e edges).map (·.object)).Nodup := by
  cases found : edges.find? (·.key = e.key) with
  | none =>
    rw [place_of_find?_none found, List.map_append]
    refine List.nodup_append.mpr ⟨distinct, List.nodup_singleton _, ?_⟩
    intro a ha b hb same
    obtain ⟨o, ho, rfl⟩ := List.mem_map.mp ha
    rw [List.mem_singleton.mp hb] at same
    cases found.symm.trans (known o ho same)
  | some old =>
    obtain ⟨before, behind, stand, -, -, placed⟩ := place_of_find? found
    subst stand
    rw [List.map_append, List.map_cons, List.nodup_middle, List.nodup_cons] at distinct
    rw [placed, List.map_append, List.map_cons, List.nodup_middle, List.nodup_cons]
    refine ⟨fun elsewhere => distinct.1 ?_, distinct.2⟩
    rw [← List.map_append] at elsewhere ⊢
    obtain ⟨o, ho, same⟩ := List.mem_map.mp elsewhere
    have mem : o ∈ before ++ old :: behind :=
      ((List.sublist_cons_self old behind).append_left before).mem ho
    have there := known o mem same
    rw [found] at there
    cases there
    exact List.mem_map_of_mem ho

namespace Separate

/-- Under its target an edge has the same first edge with its key as under its source. -/
theorem find?_incomingOf (h : Separate g) (e : EdgeObject Origin α) :
    (g.incomingOf e.edge.target).find? (·.key = e.key) = g.replacedBy e := by
  have narrowed : ∀ (p : EdgeObject Origin α → Bool) (edges : List (EdgeObject Origin α)),
      (∀ o, o.key = e.key → p o = true) →
        (edges.filter p).find? (·.key = e.key) = edges.find? (·.key = e.key) := by
    intro p edges keeps
    rw [List.find?_filter]
    congr
    funext o
    by_cases same : o.key = e.key
    · simp [same, keeps o same]
    · simp [same]
  rw [replacedBy, ← narrowed (·.edge.source = e.edge.source), ← h.agree,
    narrowed (·.edge.target = e.edge.target)]
  · intro o same
    exact decide_eq_true (congrArg (·.2.1) same)
  · intro o same
    exact decide_eq_true (congrArg (·.1) same)

/-- As long as no edge stands in two places, what is replaced under the target is the first edge
with the key, too. -/
theorem exchange_eq_place (c : Coherent g) (h : Separate g) (e : EdgeObject Origin α) :
    exchange e (g.replacedBy e) (g.incomingOf e.edge.target) =
      place EdgeObject.key e (g.incomingOf e.edge.target) := by
  have found := h.find?_incomingOf e
  cases replaced : g.replacedBy e with
  | none => exact (place_of_find?_none (found.trans replaced)).symm
  | some old =>
    obtain ⟨before, behind, stand, key, others, placed⟩ := place_of_find? (found.trans replaced)
    have same_edge := @c.eq_replaced _ _ _ _ replaced e.edge.target
    have once : ((g.incomingOf e.edge.target).filter (·.edge.source = e.edge.source)).Nodup := by
      rw [← h.agree]
      exact (List.Nodup.of_map _ (h.distinct _)).filter _
    have source : old.edge.source = e.edge.source := congrArg (·.1) key
    rw [stand] at same_edge once
    rw [List.filter_append, List.filter_cons_of_pos (by simpa using source)] at once
    have alone := (List.nodup_cons.mp (List.nodup_append.mp once).2.1).1
    have untouched : ∀ o ∈ before ++ behind, o.object ≠ old.object := by
      intro o ho same
      have mem : o ∈ before ++ old :: behind :=
        ((List.sublist_cons_self old behind).append_left before).mem ho
      obtain rfl := same_edge o mem same
      rcases List.mem_append.mp ho with ho | ho
      · exact others o ho key
      · exact alone (List.mem_filter.mpr ⟨ho, decide_eq_true source⟩)
    obtain ⟨front, back⟩ := List.forall_mem_append.mp untouched
    have kept : ∀ edges : List (EdgeObject Origin α), (∀ o ∈ edges, o.object ≠ old.object) →
        edges.map (fun o => if o.object = old.object then e else o) = edges := by
      intro edges differ
      exact (List.map_congr_left fun o ho => if_neg (differ o ho)).trans (List.map_id edges)
    rw [placed, exchange, stand, List.map_append, List.map_cons, if_pos rfl, kept _ front,
      kept _ back]

theorem agree_add (c : Coherent g) (h : Separate g) (e : EdgeObject Origin α) (now : Moment)
    (s t : String) : ((g.add e now).outgoingOf s).filter (·.edge.target = t) =
      ((g.add e now).incomingOf t).filter (·.edge.source = s) := by
  have agree := h.agree s t
  have by_target : ∀ o : EdgeObject Origin α, o.key = e.key →
      decide (o.edge.target = t) = decide (e.edge.target = t) := by
    intro o same
    rw [show o.edge.target = e.edge.target from congrArg (·.2.1) same]
  have by_source : ∀ o : EdgeObject Origin α, o.key = e.key →
      decide (o.edge.source = s) = decide (e.edge.source = s) := by
    intro o same
    rw [show o.edge.source = e.edge.source from congrArg (·.1) same]
  have outgoing := @RelationshipGraph.filter_place _ _ _ EdgeObject.key e _
    (g.outgoingOf e.edge.source) by_target
  have incoming := @RelationshipGraph.filter_place _ _ _ EdgeObject.key e _
    (g.incomingOf e.edge.target) by_source
  rw [outgoingOf_add, incomingOf_add, h.exchange_eq_place c]
  by_cases source : e.edge.source = s <;> by_cases target : e.edge.target = t
  · rw [if_pos source, if_pos target, outgoing, incoming, if_pos (decide_eq_true target),
      if_pos (decide_eq_true source), source, target, agree]
  · rw [if_pos source, if_neg target, outgoing, if_neg (by simpa using target), source, agree]
  · rw [if_neg source, if_pos target, incoming, if_neg (by simpa using source), target, agree]
  · rw [if_neg source, if_neg target, agree]

/-- An edge that was handed in before stays in front of all others with its key. -/
theorem first_place (h : Separate g) {o : EdgeObject Origin α} {m : Nat}
    (ho : o ∈ place EdgeObject.key e (g.outgoingOf e.edge.source)) (handed : o.object = .given m) :
    (place EdgeObject.key e (g.outgoingOf e.edge.source)).find? (·.key = o.key) = some o := by
  rw [find?_place]
  by_cases same : o = e
  · rw [same, if_pos rfl]
  · have old := (RelationshipGraph.mem_place ho).resolve_left same
    have first := h.first _ m o old handed
    by_cases key : e.key = o.key
    · rw [← key] at first
      obtain ⟨before, behind, stand, -, others, placed⟩ := place_of_find? first
      have distinct := List.Nodup.of_map _ (h.distinct e.edge.source)
      rw [stand, List.nodup_middle] at distinct
      rw [placed] at ho
      have elsewhere : o ∈ before ++ behind := by simpa [same] using ho
      exact absurd elsewhere (List.nodup_cons.mp distinct).1
    · rw [if_neg key, first]

theorem add (c : Coherent g) (h : Separate g) (fits : Consistent (e :: g.edges)) {n : Nat}
    (given : e.object = .given n) (now : Moment) : Separate (g.add e now) where
  agree := agree_add c h e now
  distinct s := by
    rw [outgoingOf_add]
    split
    · refine nodup_place (h.distinct _) fun o ho same => ?_
      have known := fits.edges o (List.mem_cons_of_mem _ (c.mem_of_outgoingOf ho)) e
        List.mem_cons_self same
      rw [known] at ho ⊢
      exact h.first _ n e ho given
    · exact h.distinct s
  first := by
    intro s m o ho handed
    rw [outgoingOf_add] at ho ⊢
    split
    · next source =>
      rw [if_pos source] at ho
      exact h.first_place ho handed
    · next other =>
      rw [if_neg other] at ho
      exact h.first s m o ho handed

end Separate

end ObjectGraph

end EntityRules
