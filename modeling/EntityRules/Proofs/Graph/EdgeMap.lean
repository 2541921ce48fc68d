import EntityRules.Proofs.Graph.Coherence

/-! The edges of a graph as a finite map. -/

namespace EntityRules

variable {α : Type}

/-- The source, the target and the type of an edge. -/
abbrev EdgeKey := String × String × RelationshipType

/-- At most one edge for every key. -/
abbrev EdgeMap (α : Type) := EdgeKey → Option (Relationship α)

namespace RelationshipGraph

/-- Whether a key is one of those between two entities, or the one of a type that is given by name.
There is no key of a type that nobody knows. -/
def selects (source target : String) : Option String → EdgeKey → Bool
  | none, k => k.1 = source && k.2.1 = target
  | some name, k =>
    match Vocabulary.ofName? name with
    | some wanted => k = (source, target, wanted)
    | none => false

/-- The graph holds the edges of a map, each under its key, and no others. -/
def Holds (g : RelationshipGraph α) (m : EdgeMap α) : Prop :=
  ∀ k, g.edges.filter (·.key = k) = (m k).toList

end RelationshipGraph

/-- Whether a step brings in at most one edge for a key. -/
def GraphStep.KeysApart : GraphStep α → Prop
  | .load s => ((RelationshipGraph.edgesIn s).map (·.key)).Nodup
  | _ => True

/-- What a step does to the map of the edges. -/
def GraphStep.onMap (m : EdgeMap α) : GraphStep α → EdgeMap α
  | .add r _ => Function.update m r.key (some r)
  | .remove source target type _ => fun k =>
    if RelationshipGraph.selects source target type k then none else m k
  | .load s => fun k => (RelationshipGraph.edgesIn s).find? (·.key = k)
  | .validate now => fun k => (m k).map (RelationshipGraph.stamped now)
  | .register .. | .clearCaches | .analyze .. | .path .. => m

namespace RelationshipGraph

open Members

variable {g : RelationshipGraph α} {m : EdgeMap α} {r : Relationship α} {k : EdgeKey}

/-- The edges of a source stand together, and what replaces them takes their place. -/
theorem Keyed.around {ms : Members (List (Relationship α))} (h : Keyed (·.source) ms)
    (name : String) :
    ∃ before behind, edgesOf ms = before ++ under ms name ++ behind ∧
      (∀ edges, edgesOf (ms.put name edges) = before ++ edges ++ behind) ∧
      (∀ edges, edgesOf (RelationshipGraph.putEdges ms name edges) = before ++ edges ++ behind) ∧
      ∀ e ∈ before ++ behind, e.source ≠ name := by
  obtain ⟨before, behind, erased, replaced, whole⟩ := Members.around h.distinct name
  have put : ∀ edges, edgesOf (ms.put name edges) = edgesOf before ++ edges ++ edgesOf behind := by
    intro edges
    rw [replaced]
    simp [edgesOf]
  refine ⟨edgesOf before, edgesOf behind, ?_, put, ?_, ?_⟩
  · conv_lhs => rw [whole]
    cases held : ms.get? name <;> simp [edgesOf, under, held]
  · intro edges
    unfold RelationshipGraph.putEdges
    split
    · next none => simp [erased, edgesOf, List.isEmpty_iff.mp none]
    · exact put edges
  · intro e he
    have there : e ∈ edgesOf (ms.erase name) := by
      rw [erased]
      simpa [edgesOf] using he
    obtain ⟨m, hm, he⟩ := List.mem_flatMap.mp there
    obtain ⟨hm, other⟩ := List.mem_filter.mp hm
    rw [h.placed m hm e he]
    simpa using other

/-- A question that only edges of one source answer is a question about the edges under it. -/
theorem Keyed.filter_edgesOf_of_source {ms : Members (List (Relationship α))}
    (h : Keyed (·.source) ms) {p : Relationship α → Bool} {name : String}
    (own : ∀ e, p e → e.source = name) : (edgesOf ms).filter p = (under ms name).filter p := by
  rw [← h.filter_edgesOf name, List.filter_filter]
  refine List.filter_congr fun e _ => ?_
  by_cases he : p e
  · simp [he, own e he]
  · simp [he]

/-- The edges with a key that stand under its target. -/
theorem Coherent.filter_incomingOf_perm (h : Coherent g) (k : EdgeKey) :
    ((g.incomingOf k.2.1).filter (·.key = k)).Perm (g.edges.filter (·.key = k)) := by
  have perm := (incomingOf_perm h k.2.1).filter (·.key = k)
  rw [List.filter_filter] at perm
  refine perm.trans (.of_eq (List.filter_congr fun e _ => ?_))
  by_cases same : e.key = k
  · have target : e.target = k.2.1 := congrArg (·.2.1) same
    simp [same, target]
  · simp [same]

theorem place_place (edges : List (Relationship α)) :
    place Relationship.key r (place Relationship.key r edges) = place Relationship.key r edges := by
  induction edges with
  | nil => simp [place]
  | cons e rest ih =>
    by_cases first : e.key = r.key
    · simp [place, first]
    · simp only [place, first, if_false, ih]

/-- Storing an edge puts it in its place among the edges of its source. -/
theorem Coherent.edges_add (h : Coherent g) (r : Relationship α) (now : Moment) :
    ∃ before behind, g.edges = before ++ g.outgoingOf r.source ++ behind ∧
      (g.add r now).edges = before ++ place Relationship.key r (g.outgoingOf r.source) ++ behind ∧
      ∀ e ∈ before ++ behind, e.key ≠ r.key := by
  obtain ⟨before, behind, all, put, -, others⟩ := h.bySource.around r.source
  refine ⟨before, behind, all, put _, ?_⟩
  intro e he same
  exact others e he (congrArg Prod.fst same)

theorem under_put_place (ms : Members (List (Relationship α))) (name id : String) :
    under (ms.put name (place Relationship.key r (under ms name))) id =
      if name = id then place Relationship.key r (under ms id) else under ms id := by
  rw [under_put]
  split
  · next same => rw [same]
  · rfl

theorem put_place_again (ms : Members (List (Relationship α))) (name : String) :
    (ms.put name (place Relationship.key r (under ms name))).put name
      (place Relationship.key r
        (under (ms.put name (place Relationship.key r (under ms name))) name)) =
        ms.put name (place Relationship.key r (under ms name)) := by
  rw [under_put, if_pos rfl, place_place, put_put]

theorem outgoingOf_add (g : RelationshipGraph α) (r : Relationship α) (now : Moment) (id : String) :
    (g.add r now).outgoingOf id =
      if r.source = id then place Relationship.key r (g.outgoingOf id) else g.outgoingOf id :=
  under_put_place g.outgoing r.source id

theorem incomingOf_add (g : RelationshipGraph α) (r : Relationship α) (now : Moment) (id : String) :
    (g.add r now).incomingOf id =
      if r.target = id then place Relationship.key r (g.incomingOf id) else g.incomingOf id :=
  under_put_place g.incoming r.target id

/-- What the key of the new edge fails is asked of the same edges as before. -/
theorem Coherent.filter_add (h : Coherent g) {p : Relationship α → Bool}
    (others : ∀ e, e.key = r.key → p e = false) (now : Moment) :
    (g.add r now).edges.filter p = g.edges.filter p := by
  obtain ⟨before, behind, whole, added, -⟩ := h.edges_add r now
  have self := others r rfl
  have placed := filter_place (g.outgoingOf r.source) fun e same => (others e same).trans self.symm
  rw [if_neg (by simp [self])] at placed
  rw [added, whole]
  simp only [List.filter_append, placed]

theorem Coherent.filter_key_add (h : Coherent g) (r : Relationship α) (now : Moment) :
    (g.add r now).edges.filter (·.key = r.key) =
      place Relationship.key r (g.edges.filter (·.key = r.key)) := by
  have own : ∀ e : Relationship α, decide (e.key = r.key) → e.source = r.source := by
    intro e same
    exact congrArg Prod.fst (of_decide_eq_true same)
  have after := (coherent_add h r now).bySource.filter_edgesOf_of_source own
  have before := h.bySource.filter_edgesOf_of_source own
  have same_key : ∀ e : Relationship α, e.key = r.key →
      decide (e.key = r.key) = decide (r.key = r.key) := by
    intro e same
    rw [same]
  have placed := filter_place (g.outgoingOf r.source) same_key
  rw [← outgoingOf_eq, outgoingOf_add, if_pos rfl, placed, if_pos (by simp)] at after
  rw [edges, edges, after, before]
  rfl

/-- Storing an edge updates the map at its key. -/
theorem Holds.add (hc : Coherent g) (h : Holds g m) (r : Relationship α) (now : Moment) :
    Holds (g.add r now) (Function.update m r.key (some r)) := by
  intro k
  by_cases same : k = r.key
  · subst same
    rw [hc.filter_key_add, h, Function.update_self]
    cases held : m r.key with
    | none => rfl
    | some old =>
      have found : old ∈ g.edges.filter (·.key = r.key) := by simp [h r.key, held]
      have key : old.key = r.key := by simpa using (List.mem_filter.mp found).2
      simp [place, key]
  · rw [hc.filter_add, h, Function.update_of_ne same]
    intro e key
    simpa [key] using Ne.symm same

/-- The types that are wanted: the one with a name, which may be unknown, or all. -/
def isWanted : Option String → RelationshipType → Bool
  | none, _ => true
  | some name, type => Vocabulary.ofName? name = some type

theorem selects_key (source target : String) (type : Option String) (r : Relationship α) :
    selects source target type r.key =
      (r.source = source && (r.target = target && isWanted type r.type)) := by
  cases type with
  | none =>
    simp only [selects, isWanted, Bool.and_true]
    rfl
  | some name =>
    rw [selects, isWanted]
    cases (Vocabulary.ofName? name : Option RelationshipType) with
    | none => simp
    | some wanted => simp [Relationship.key, eq_comm]

theorem remove_eq (g : RelationshipGraph α) (source target : String) (type : Option String)
    (now : Moment) :
    g.remove source target type now = g.removeWhere source target (isWanted type) now := by
  cases type with
  | none => rfl
  | some name =>
    rw [remove]
    cases known : (Vocabulary.ofName? name : Option RelationshipType) with
    | none =>
      have none_wanted : ∀ type, isWanted (some name) type = false := by simp [isWanted, known]
      simp [removeWhere, none_wanted]
    | some wanted =>
      have one_wanted : isWanted (some name) = fun type => decide (type = wanted) := by
        funext type
        simp [isWanted, known, eq_comm]
      rw [one_wanted]

theorem Coherent.any_selected (h : Coherent g) (source target : String) (type : Option String) :
    ((g.outgoingOf source).any fun e => e.target = target && isWanted type e.type) =
      g.edges.any fun e => selects source target type e.key := by
  simp only [outgoingOf_eq, ← h.bySource.filter_edgesOf source, List.any_filter, selects_key]
  rfl

/-- Removing answers no and does nothing when no edge is selected, and otherwise takes edges from
both sides. -/
theorem Coherent.remove_cases (h : Coherent g) (source target : String) (type : Option String)
    (now : Moment) :
    ((∀ e ∈ g.edges, selects source target type e.key = false) ∧
      g.remove source target type now = (false, g)) ∨
    ((∃ e ∈ g.edges, selects source target type e.key) ∧
      (g.remove source target type now).1 = true ∧
      (g.remove source target type now).2.outgoing = putEdges g.outgoing source
        ((g.outgoingOf source).filter fun e => !(e.target = target && isWanted type e.type)) ∧
      (g.remove source target type now).2.incoming = putEdges g.incoming target
        ((g.incomingOf target).filter fun e => !(e.source = source && isWanted type e.type))) := by
  rw [remove_eq, removeWhere, h.any_selected]
  cases selected : g.edges.any fun e => selects source target type e.key with
  | false =>
    refine .inl ⟨?_, rfl⟩
    intro e he
    exact Bool.eq_false_iff.mpr (List.any_eq_false.mp selected e he)
  | true => exact .inr ⟨List.any_eq_true.mp selected, rfl, rfl, rfl⟩

/-- The edges that removing leaves, in their order. -/
theorem Coherent.edges_remove (h : Coherent g) (source target : String) (type : Option String)
    (now : Moment) :
    (g.remove source target type now).2.edges =
      g.edges.filter fun e => !selects source target type e.key := by
  rcases h.remove_cases source target type now with ⟨none, kept⟩ | ⟨-, -, outgoing, -⟩
  · rw [kept, List.filter_eq_self.mpr]
    intro e he
    simp [none e he]
  · obtain ⟨before, behind, whole, -, replaced, others⟩ := h.bySource.around source
    have kept : ∀ e ∈ before ++ behind, (!selects source target type e.key) = true := by
      intro e he
      simp [selects_key, others e he]
    obtain ⟨left, right⟩ := List.forall_mem_append.mp kept
    have inner : ((g.outgoingOf source).filter fun e =>
        !(e.target = target && isWanted type e.type)) =
        (g.outgoingOf source).filter fun e => !selects source target type e.key := by
      refine List.filter_congr fun e he => ?_
      simp [selects_key, h.bySource.key_eq he]
    rw [RelationshipGraph.edges, RelationshipGraph.edges, outgoing, replaced, whole, inner,
      List.filter_append, List.filter_append, List.filter_eq_self.mpr left,
      List.filter_eq_self.mpr right]
    rfl

theorem Coherent.incomingOf_remove (h : Coherent g) (source target : String)
    (type : Option String) (now : Moment) (id : String) :
    (g.remove source target type now).2.incomingOf id =
      (g.incomingOf id).filter fun e => !selects source target type e.key := by
  rcases h.remove_cases source target type now with ⟨none, kept⟩ | ⟨-, -, -, incoming⟩
  · rw [kept, List.filter_eq_self.mpr]
    intro e he
    have there : e ∈ g.edges := (List.mem_filter.mp ((incomingOf_perm h id).mem_iff.mp he)).1
    simp [none e there]
  · rw [incomingOf_eq, incoming, under_putEdges]
    split
    · next same =>
      subst same
      refine List.filter_congr fun e he => ?_
      simp [selects_key, h.byTarget.key_eq he]
    · next other =>
      refine (List.filter_eq_self.mpr ?_).symm
      intro e he
      simp [selects_key, h.byTarget.key_eq he, Ne.symm other]

/-- Removing deletes the selected keys. -/
theorem Holds.remove (hc : Coherent g) (h : Holds g m) (source target : String)
    (type : Option String) (now : Moment) :
    Holds (g.remove source target type now).2
      fun k => if selects source target type k then none else m k := by
  intro k
  dsimp only
  rw [hc.edges_remove, List.filter_filter]
  by_cases sel : selects source target type k
  · rw [if_pos sel, Option.toList_none, List.filter_eq_nil_iff]
    rintro e - he
    simp only [Bool.and_eq_true, decide_eq_true_eq] at he
    simp [he.1, sel] at he
  · rw [if_neg sel, ← h]
    refine List.filter_congr fun e _ => ?_
    by_cases he : e.key = k <;> simp [he, sel]

theorem filter_key_of_nodup {edges : List (Relationship α)} (h : (edges.map (·.key)).Nodup)
    (k : EdgeKey) : edges.filter (·.key = k) = (edges.find? (·.key = k)).toList := by
  induction edges with
  | nil => rfl
  | cons e rest ih =>
    obtain ⟨apart, distinct⟩ := List.nodup_cons.mp h
    by_cases first : e.key = k
    · have none : rest.filter (·.key = k) = [] := by
        rw [List.filter_eq_nil_iff]
        intro e' he' same
        have same : e'.key = k := of_decide_eq_true same
        exact apart (List.mem_map.mpr ⟨e', he', same.trans first.symm⟩)
      simp [first, none]
    · simp [first, ih distinct]

theorem holds_load (g : RelationshipGraph α) {s : GraphSnapshot α}
    (apart : ((edgesIn s).map (·.key)).Nodup) :
    Holds (g.load s) fun k => (edgesIn s).find? (·.key = k) := by
  intro k
  have own : ∀ e : Relationship α, decide (e.key = k) → e.source = k.1 := by
    intro e same
    exact congrArg Prod.fst (of_decide_eq_true same)
  have filed := (keyed_indexBy (·.source) (edgesIn s)).filter_edgesOf_of_source own
  rw [under_indexBy, List.filter_filter] at filed
  rw [← filter_key_of_nodup apart]
  refine filed.trans (List.filter_congr fun e _ => ?_)
  by_cases same : e.key = k
  · simp [same, own e (by simpa using same)]
  · simp [same]

theorem Holds.validate (h : Holds g m) (now : Moment) :
    Holds (g.validate now).2 fun k => (m k).map (stamped now) := by
  intro k
  have edges : (g.validate now).2.edges = g.edges.map (stamped now) := edgesOf_map ..
  have keys : ((fun e : Relationship α => decide (e.key = k)) ∘ stamped now) =
      fun e => decide (e.key = k) := rfl
  rw [edges, List.filter_map, keys, h]
  dsimp only
  cases m k <;> rfl

/-- The map tells of the outgoing edges alone. -/
theorem Holds.of_outgoing (h : Holds g m) {g' : RelationshipGraph α}
    (same : g'.outgoing = g.outgoing) : Holds g' m := by
  intro k
  rw [← h k, edges, edges, same]

theorem outgoing_register (g : RelationshipGraph α) (id : String) (now : Moment) :
    (g.register id now).outgoing = g.outgoing := by
  unfold register
  split <;> rfl

theorem Holds.step [Scalar α] (hc : Coherent g) (h : Holds g m) {s : GraphStep α}
    (apart : s.KeysApart) : Holds (s.apply g) (s.onMap m) := by
  cases s with
  | register id now => exact h.of_outgoing (outgoing_register g id now)
  | add r now => exact h.add hc r now
  | remove source target type now => exact h.remove hc source target type now
  | load s => exact holds_load g apart
  | validate now => exact h.validate now
  | clearCaches => exact h
  | analyze id now => exact h.of_outgoing (sameContents_analyze g id now).outgoing
  | path source target hops => exact h.of_outgoing (sameContents_path g source target hops).outgoing

theorem Holds.run [Scalar α] (hc : Coherent g) (h : Holds g m) {steps : List (GraphStep α)}
    (apart : ∀ s ∈ steps, s.KeysApart) :
    Holds (steps.foldl GraphStep.apply g) (steps.foldl GraphStep.onMap m) := by
  induction steps generalizing g m with
  | nil => exact h
  | cons s rest ih =>
    obtain ⟨first, apart⟩ := List.forall_mem_cons.mp apart
    exact ih (coherent_step hc s) (h.step hc first) apart

/-- Of two edges with one key, the map has only one. -/
theorem Holds.unique (h : Holds g m) {e e' : Relationship α} (he : e ∈ g.edges)
    (he' : e' ∈ g.edges) (same : e.key = e'.key) : e = e' := by
  have found : e ∈ (m e'.key).toList := by
    rw [← h e'.key]
    simp [he, same]
  have found' : e' ∈ (m e'.key).toList := by
    rw [← h e'.key]
    simp [he']
  exact Option.some.inj ((Option.mem_toList.mp found).symm.trans (Option.mem_toList.mp found'))

theorem Holds.filter_incomingOf (hc : Coherent g) (h : Holds g m) (k : EdgeKey) :
    (g.incomingOf k.2.1).filter (·.key = k) = (m k).toList := by
  have perm := hc.filter_incomingOf_perm k
  rw [h] at perm
  cases held : m k with
  | none =>
    rw [held] at perm
    exact perm.eq_nil
  | some e =>
    rw [held] at perm
    exact List.perm_singleton.mp perm

theorem Holds.nodup (h : Holds g m) : (g.edges.map (·.key)).Nodup := by
  rw [List.nodup_iff_count_le_one]
  intro k
  have once : (g.edges.filter (·.key = k)).length ≤ 1 := by
    rw [h]
    cases m k <;> simp
  rw [List.count, List.countP_map, List.countP_eq_length_filter]
  simpa only [Function.comp_def, beq_eq_decide] using once

/-- What storing an edge does. -/
structure EdgeStored (g : RelationshipGraph α) (r : Relationship α) (g' : RelationshipGraph α) :
    Prop where
  stored : g'.edges.filter (·.key = r.key) = [r]
  others : g'.edges.filter (·.key ≠ r.key) = g.edges.filter (·.key ≠ r.key)
  replaced : ∀ old ∈ g.edges, old.key = r.key → ∃ before behind,
    g.edges = before ++ old :: behind ∧ g'.edges = before ++ r :: behind
  appended : (∀ e ∈ g.edges, e.key ≠ r.key) →
    g'.outgoingOf r.source = g.outgoingOf r.source ++ [r]
  elsewhere : ∀ s, s ≠ r.source → g'.outgoingOf s = g.outgoingOf s
  incoming_stored : (g'.incomingOf r.target).filter (·.key = r.key) = [r]
  incoming_others : ∀ t, (g'.incomingOf t).filter (·.key ≠ r.key) =
    (g.incomingOf t).filter (·.key ≠ r.key)
  totalEdges : g'.metadata.totalEdges =
    g.metadata.totalEdges + if ∃ e ∈ g.edges, e.key = r.key then 0 else 1
  again : ∀ later, (g'.add r later).outgoing = g'.outgoing ∧
    (g'.add r later).incoming = g'.incoming ∧ (g'.add r later).nodes = g'.nodes ∧
    (g'.add r later).metadata.totalNodes = g'.metadata.totalNodes ∧
    (g'.add r later).metadata.totalEdges = g'.metadata.totalEdges

/-- What removing edges does, and what it answers. -/
structure EdgesRemoved (g : RelationshipGraph α) (source target : String) (type : Option String)
    (answer : Bool) (g' : RelationshipGraph α) : Prop where
  edges : g'.edges = g.edges.filter fun e => !selects source target type e.key
  incoming : ∀ t, g'.incomingOf t =
    (g.incomingOf t).filter fun e => !selects source target type e.key
  totalEdges : g'.metadata.totalEdges = g'.edges.length
  answer_iff : answer = true ↔ ∃ e ∈ g.edges, selects source target type e.key
  unchanged : answer = false → g' = g

theorem outgoing_add_again (g : RelationshipGraph α) (r : Relationship α) (now later : Moment) :
    ((g.add r now).add r later).outgoing = (g.add r now).outgoing :=
  put_place_again g.outgoing r.source

theorem incoming_add_again (g : RelationshipGraph α) (r : Relationship α) (now later : Moment) :
    ((g.add r now).add r later).incoming = (g.add r now).incoming :=
  put_place_again g.incoming r.target

/-- The place of an edge among all edges, if there is one with its key. -/
theorem Coherent.edges_add_of_mem (h : Coherent g) {old : Relationship α} (there : old ∈ g.edges)
    (same : old.key = r.key) (now : Moment) :
    ∃ before e behind, g.edges = before ++ e :: behind ∧ e.key = r.key ∧
      (g.add r now).edges = before ++ r :: behind := by
  obtain ⟨before, behind, whole, added, apart⟩ := h.edges_add r now
  have own : old ∈ g.outgoingOf r.source := by
    have source : old.source = r.source := congrArg Prod.fst same
    rw [outgoingOf_eq, ← h.bySource.filter_edgesOf]
    exact List.mem_filter.mpr ⟨there, by simpa using source⟩
  obtain ⟨left, e, right, found, key, placed⟩ := place_of_mem own same
  rw [placed] at added
  rw [found] at whole
  exact ⟨before ++ left, e, right ++ behind, by simpa using whole, key, by simpa using added⟩

theorem Coherent.totalEdges_add (h : Coherent g) (r : Relationship α) (now : Moment) :
    (g.add r now).metadata.totalEdges =
      g.metadata.totalEdges + if ∃ e ∈ g.edges, e.key = r.key then 0 else 1 := by
  rw [(coherent_add h r now).totalEdges, h.totalEdges]
  split
  · next held =>
    obtain ⟨old, there, same⟩ := held
    obtain ⟨before, e, behind, whole, -, added⟩ := h.edges_add_of_mem there same now
    rw [whole, added]
    simp
  · next new =>
    obtain ⟨before, behind, whole, added, -⟩ := h.edges_add r now
    have placed : place Relationship.key r (g.outgoingOf r.source) = g.outgoingOf r.source ++ [r] := by
      refine place_of_new fun e he same => new ⟨e, ?_, same⟩
      rw [whole]
      exact List.mem_append_left _ (List.mem_append_right _ he)
    rw [whole, added, placed]
    simp only [List.length_append, List.length_singleton]
    omega

theorem edgeStored (hc : Coherent g) (h : Holds g m) (r : Relationship α) (now : Moment) :
    EdgeStored g r (g.add r now) := by
  have differ : ∀ e : Relationship α, e.key = r.key → decide (e.key ≠ r.key) = false := by simp
  have stored : (g.add r now).edges.filter (·.key = r.key) = [r] := by
    rw [h.add hc r now r.key, Function.update_self]
    rfl
  constructor
  · exact stored
  · exact hc.filter_add differ now
  · intro old there same
    obtain ⟨before, e, behind, whole, key, added⟩ := hc.edges_add_of_mem there same now
    have here : e ∈ g.edges := by simp [whole]
    obtain rfl := h.unique there here (same.trans key.symm)
    exact ⟨before, behind, whole, added⟩
  · intro new
    rw [outgoingOf_add, if_pos rfl, place_of_new]
    intro e he
    rw [outgoingOf_eq, ← hc.bySource.filter_edgesOf] at he
    exact new e (List.mem_filter.mp he).1
  · intro s other
    rw [outgoingOf_add, if_neg other.symm]
  · exact List.perm_singleton.mp (stored ▸ (coherent_add hc r now).filter_incomingOf_perm r.key)
  · intro t
    rw [incomingOf_add]
    split
    · rw [filter_place _ fun e same => (differ e same).trans (differ r rfl).symm, if_neg (by simp)]
    · rfl
  · exact hc.totalEdges_add r now
  · intro later
    have outgoing := outgoing_add_again g r now later
    have nodes : ((g.add r now).add r later).nodes = (g.add r now).nodes :=
      congrArg (nodesOf · g.registered) outgoing
    have edges : ((g.add r now).add r later).edges = (g.add r now).edges :=
      congrArg edgesOf outgoing
    have twice := coherent_add (coherent_add hc r now) r later
    have once := coherent_add hc r now
    refine ⟨outgoing, incoming_add_again g r now later, nodes, ?_, ?_⟩
    · rw [twice.totalNodes, once.totalNodes, nodes]
    · rw [twice.totalEdges, once.totalEdges, edges]

theorem edgesRemoved (hc : Coherent g) (source target : String) (type : Option String)
    (now : Moment) :
    EdgesRemoved g source target type (g.remove source target type now).1
      (g.remove source target type now).2 := by
  have edges := hc.edges_remove source target type now
  have incoming := hc.incomingOf_remove source target type now
  have total := (coherent_remove hc source target type now).totalEdges
  rcases hc.remove_cases source target type now with ⟨none, kept⟩ | ⟨some, found, -⟩
  · exact ⟨edges, incoming, total, by simpa [kept] using none, fun _ => by rw [kept]⟩
  · exact ⟨edges, incoming, total, by simp [found, some], by simp [found]⟩

/-- Along every run that brings in at most one edge for a key with each snapshot, the graph holds
the edges of a map, on both sides. Storing an edge updates the map and removing deletes from it. -/
theorem run_edgeMap [Scalar α] {options : GraphOptions α} {now : Moment}
    (made : create options now = .ok g) {steps : List (GraphStep α)}
    (apart : ∀ s ∈ steps, s.KeysApart) :
    let reached := steps.foldl GraphStep.apply g
    Holds reached (steps.foldl GraphStep.onMap fun _ => none) ∧
      (∀ k, (reached.incomingOf k.2.1).filter (·.key = k) =
        (steps.foldl GraphStep.onMap (fun _ => none) k).toList) ∧
      (reached.edges.map (·.key)).Nodup ∧
      (∀ r now, EdgeStored reached r (reached.add r now)) ∧
      ∀ source target type now, EdgesRemoved reached source target type
        (reached.remove source target type now).1 (reached.remove source target type now).2 := by
  have empty : Holds g fun _ => none := by
    intro k
    simp [RelationshipGraph.edges, (create_eq_ok made).1, edgesOf]
  have coherent := coherent_reachable (Reachable.run steps (.created made))
  have holds := empty.run (coherent_created made) apart
  exact ⟨holds, holds.filter_incomingOf coherent, holds.nodup, edgeStored coherent holds,
    edgesRemoved coherent⟩

namespace Sample

/-- Two edges between the same entities, of different types. -/
def parallel : GraphSnapshot Float :=
  { relationships :=
      [("a", [edge "first" "a" "b", { edge "second" "a" "b" with type := .conflict }])]
    metadata := .fresh noon, nodes := [] }

def changes : List (GraphStep Float) :=
  [.load parallel, .add (edge "third" "a" "b") noon, .add (edge "loop" "a" "a") noon,
    .remove "a" "b" (some "unheard") noon, .remove "a" "b" (some "conflict") noon]

end Sample

/-- An edge takes the place of the first one, the one of another type is removed, and a type that
nobody knows removes nothing. -/
theorem run_edgeMap_parallel : ∃ g : RelationshipGraph Float,
    create Sample.options Sample.noon = .ok g ∧ (∀ s ∈ Sample.changes, s.KeysApart) ∧
      Holds (Sample.changes.foldl GraphStep.apply g)
        (Sample.changes.foldl GraphStep.onMap fun _ => none) ∧
      (Sample.changes.foldl GraphStep.apply g).edges.map (·.id) = ["third", "loop"] := by
  obtain ⟨g, made⟩ : ∃ g, create Sample.options Sample.noon = .ok g := ⟨_, rfl⟩
  have apart : ∀ s ∈ Sample.changes, s.KeysApart := by
    simp [Sample.changes, GraphStep.KeysApart, edgesIn, Sample.parallel, Sample.edge,
      Relationship.key]
  refine ⟨g, made, apart, (run_edgeMap made apart).1, ?_⟩
  cases made
  decide

end RelationshipGraph

end EntityRules
