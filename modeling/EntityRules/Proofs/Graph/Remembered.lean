import EntityRules.Proofs.Cache
import EntityRules.Proofs.Graph.Alike
import EntityRules.Proofs.Graph.Coherence
import EntityRules.Proofs.Graph.Reworked
import Mathlib.Data.List.Induction

/-! What a graph remembers. -/

namespace EntityRules

variable {α : Type}

/-- The times of the validations among some steps. -/
def GraphStep.validations (steps : List (GraphStep α)) : List Moment :=
  steps.filterMap fun s =>
    match s with
    | validate now => some now
    | _ => none

theorem GraphStep.validations_append (steps rest : List (GraphStep α)) :
    validations (steps ++ rest) = validations steps ++ validations rest :=
  List.filterMap_append

/-- The marks of some validations, the earliest one first, are put on the direct edges. -/
def RelationshipAnalysis.validated (late : List Moment) (a : RelationshipAnalysis α) :
    RelationshipAnalysis α :=
  a.reworked fun r => late.foldl (fun r now => RelationshipGraph.stamped now r) r

namespace RelationshipAnalysis

theorem validated_nil (a : RelationshipAnalysis α) : a.validated [] = a := by
  unfold validated reworked
  simp only [List.foldl_nil, List.map_id']

theorem map_validated_nil (answer : Except GraphTrouble (RelationshipAnalysis α)) :
    answer.map (·.validated []) = answer := by
  cases answer with
  | error why => rfl
  | ok a => exact congrArg Except.ok (validated_nil a)

theorem validated_append (a : RelationshipAnalysis α) (early late : List Moment) :
    (a.validated early).validated late = a.validated (early ++ late) := by
  unfold validated reworked
  simp only [List.foldl_append, List.map_map, Function.comp_def]

theorem validationCount_foldl (late : List Moment) (r : Relationship α) :
    (late.foldl (fun r now => RelationshipGraph.stamped now r) r).metadata.validationCount =
      r.metadata.validationCount + late.length := by
  induction late generalizing r with
  | nil => simp
  | cons now rest ih =>
    rw [List.foldl_cons, ih, List.length_cons]
    simp only [RelationshipGraph.stamped]
    omega

/-- Marks show wherever there is an edge to bear them. -/
theorem validated_eq_self_iff {a : RelationshipAnalysis α} {late : List Moment} :
    a.validated late = a ↔ late = [] ∨ a.direct = [] := by
  constructor
  · intro same
    have direct : (a.validated late).direct = a.direct := congrArg direct same
    cases hd : a.direct with
    | nil => exact .inr rfl
    | cons r rest =>
      left
      simp only [validated, reworked, hd, List.map_cons, List.cons.injEq] at direct
      have counts := validationCount_foldl late r
      rw [direct.1] at counts
      exact List.length_eq_zero_iff.mp (by omega)
  · rintro (rfl | empty)
    · exact validated_nil a
    · obtain ⟨id, direct, indirect, chain, cycles, score, impact⟩ := a
      obtain rfl : direct = [] := empty
      rfl

end RelationshipAnalysis

namespace RelationshipGraph

/-- Graphs with the same nodes, edges and settings, whatever they remember. -/
structure SameStore (g g' : RelationshipGraph α) : Prop where
  options : g'.options = g.options
  outgoing : g'.outgoing = g.outgoing
  incoming : g'.incoming = g.incoming
  registered : g'.registered = g.registered

theorem SameStore.refl (g : RelationshipGraph α) : SameStore g g := ⟨rfl, rfl, rfl, rfl⟩

theorem SameContents.sameStore {g g' : RelationshipGraph α} (h : SameContents g g') :
    SameStore g g' :=
  ⟨h.options, h.outgoing, h.incoming, h.registered⟩

theorem sameStore_forget (g : RelationshipGraph α) : SameStore g g.forget := ⟨rfl, rfl, rfl, rfl⟩

theorem sameStore_validate (g : RelationshipGraph α) (now : Moment) :
    SameStore (g.reworked (stamped now)) (g.validate now).2 :=
  ⟨rfl, rfl, rfl, rfl⟩

theorem SameStore.alike {g g' : RelationshipGraph α} (h : SameStore g g') : Alike g g' where
  options := h.options
  outgoing := h.outgoing
  registered := h.registered
  has id := by rw [has, h.outgoing, h.incoming, h.registered]; rfl
  incoming id := by rw [incomingOf, h.incoming]; rfl

theorem SameStore.relationshipsOf {g g' : RelationshipGraph α} (h : SameStore g g') (id : String)
    (both : Bool) : g'.relationshipsOf id both = g.relationshipsOf id both := by
  unfold RelationshipGraph.relationshipsOf outgoingOf incomingOf
  rw [h.outgoing, h.incoming]

theorem SameEdges.sameStore {g g' : RelationshipGraph α} (h : SameEdges g g')
    (options : g'.options = g.options) :
    SameStore (g.reworked Relationship.unmarked) (g'.reworked Relationship.unmarked) :=
  ⟨options, h.outgoing, h.incoming, h.registered⟩

/-- Nothing is remembered. -/
def Forgetful (g : RelationshipGraph α) : Prop := g.analyses.entries = [] ∧ g.paths.entries = []

theorem forgetful_forget (g : RelationshipGraph α) : g.forget.Forgetful := ⟨rfl, rfl⟩

theorem forgetful_create {g : RelationshipGraph α} {options : GraphOptions α} {now : Moment}
    (h : create options now = .ok g) : g.Forgetful := by
  obtain ⟨analyses, made, h⟩ := bind_eq_ok.mp h
  obtain ⟨paths, made', h⟩ := bind_eq_ok.mp h
  cases h
  exact ⟨ResultCache.entries_create made, ResultCache.entries_create made'⟩

theorem removeWhere_forgets (g : RelationshipGraph α) (source target : String)
    (wanted : RelationshipType → Bool) (now : Moment) :
    (g.removeWhere source target wanted now).2 = g ∨
      (g.removeWhere source target wanted now).2.Forgetful := by
  unfold removeWhere
  split
  · exact .inr ⟨rfl, rfl⟩
  · exact .inl rfl

theorem remove_forgets (g : RelationshipGraph α) (source target : String) (type : Option String)
    (now : Moment) :
    (g.remove source target type now).2 = g ∨ (g.remove source target type now).2.Forgetful := by
  unfold remove
  split
  · exact removeWhere_forgets ..
  · split
    · exact removeWhere_forgets ..
    · exact .inl rfl

theorem register_forgets (g : RelationshipGraph α) (id : String) (now : Moment) :
    g.register id now = g ∨ (g.register id now).Forgetful := by
  unfold register
  split
  · exact .inl rfl
  · exact .inr ⟨rfl, rfl⟩

variable [Scalar α]

theorem SameStore.analyzeAnew {g g' : RelationshipGraph α} (h : SameStore g g') (id : String)
    (now : Moment) : g'.analyzeAnew id now = g.analyzeAnew id now :=
  h.alike.analyzeAnew id now (h.relationshipsOf id true)

theorem searchPath?_validate (g : RelationshipGraph α) (now : Moment) (source target : String)
    (hops : Nat) :
    (g.validate now).2.searchPath? source target hops = g.searchPath? source target hops := by
  rw [(sameStore_validate g now).alike.searchPath?, searchPath?_reworked g (.stamped now)]

/-- Searches do not see marks. -/
theorem SameEdges.searchPath? {g g' : RelationshipGraph α} (h : SameEdges g g')
    (options : g'.options = g.options) (source target : String) (hops : Nat) :
    g'.searchPath? source target hops = g.searchPath? source target hops := by
  rw [← searchPath?_reworked g' .unmarked, (h.sameStore options).alike.searchPath?,
    searchPath?_reworked g .unmarked]

theorem analyzeAnew_validate (g : RelationshipGraph α) (now : Moment) (id : String)
    (made : Moment) :
    (g.validate now).2.analyzeAnew id made =
      (g.analyzeAnew id made).map (·.reworked (stamped now)) := by
  rw [(sameStore_validate g now).analyzeAnew, analyzeAnew_reworked g id (.stamped now)]

/-- What a step does not touch is remembered on; after any other step nothing is. -/
theorem remembers_cases (g : RelationshipGraph α) (s : GraphStep α) :
    (s.apply g).Forgetful ∨ (s.apply g = g ∧ GraphStep.validations [s] = []) ∨
      (∃ now, s = .validate now) ∨
      (∃ id now, s = .analyze id now) ∨ ∃ source target hops, s = .path source target hops := by
  cases s with
  | register id now => exact (register_forgets g id now).symm.imp_right fun same => .inl ⟨same, rfl⟩
  | add r now => exact .inl ⟨rfl, rfl⟩
  | remove source target type now =>
    exact (remove_forgets g source target type now).symm.imp_right fun same => .inl ⟨same, rfl⟩
  | load s => exact .inl ⟨rfl, rfl⟩
  | validate now => exact .inr (.inr (.inl ⟨now, rfl⟩))
  | clearCaches => exact .inl ⟨rfl, rfl⟩
  | analyze id now => exact .inr (.inr (.inr (.inl ⟨id, now, rfl⟩)))
  | path source target hops => exact .inr (.inr (.inr (.inr ⟨source, target, hops, rfl⟩)))

theorem entries_analyze {g : RelationshipGraph α} {id : String} {now : Moment}
    {e : CacheEntry String (RelationshipAnalysis α) α}
    (h : e ∈ (g.analyze id now).2.analyses.entries) :
    e ∈ g.analyses.entries ∨
      e.key = id ∧ g.has id = true ∧ g.analyzeAnew id now = .ok e.value := by
  unfold analyze at h
  split at h
  · next found analyses looked =>
    obtain rfl : (g.analyses.get id 0).2 = analyses := congrArg Prod.snd looked
    exact .inl (ResultCache.mem_entries_get h)
  · next analyses looked =>
    obtain rfl : (g.analyses.get id 0).2 = analyses := congrArg Prod.snd looked
    have kept : ∀ e ∈ (g.analyses.get id 0).2.entries, e ∈ g.analyses.entries :=
      fun _ he => ResultCache.mem_entries_get he
    have same : SameStore g { g with analyses := (g.analyses.get id 0).2 } :=
      ⟨rfl, rfl, rfl, rfl⟩
    dsimp only at h
    split at h
    · next known =>
      split at h
      · next found made =>
        rcases ResultCache.mem_entries_store h with ⟨old, -⟩ | rfl
        · exact .inl (kept e old)
        · right
          exact ⟨rfl, (same.alike.has id).symm.trans known,
            (same.analyzeAnew id now).symm.trans made⟩
      · exact .inl (kept e h)
    · exact .inl (kept e h)

theorem paths_analyze (g : RelationshipGraph α) (id : String) (now : Moment) :
    (g.analyze id now).2.paths = g.paths := by
  unfold analyze
  split
  · rfl
  · dsimp only
    split
    · split
      · rfl
      · rfl
    · rfl

theorem analyses_path (g : RelationshipGraph α) (source target : String)
    (hops : Option (Extent Float)) : (g.path source target hops).2.analyses = g.analyses := by
  unfold path
  dsimp only
  split
  · unfold pathWithin
    split
    · rfl
    · split
      · rfl
      · split
        · rfl
        · rfl
  · unfold pathWithout
    split
    · rfl
    · split
      · rfl
      · rfl

theorem entries_path {g : RelationshipGraph α} {source target : String}
    {hops : Option (Extent Float)} {e : CacheEntry (String × String × Bound) (GraphPath α) α}
    (h : e ∈ (g.path source target hops).2.paths.entries) :
    e ∈ g.paths.entries ∨
      ∃ bound, e.key = (source, target, bound) ∧
        g.searchPath? source target bound.ceiling.toNat = some e.value := by
  unfold path at h
  dsimp only at h
  split at h
  · next bound _ =>
    unfold pathWithin at h
    split at h
    · exact .inl h
    · split at h
      · next found paths looked =>
        obtain rfl : (g.paths.get (source, target, bound) 0).2 = paths := congrArg Prod.snd looked
        exact .inl (ResultCache.mem_entries_get h)
      · next paths looked =>
        obtain rfl : (g.paths.get (source, target, bound) 0).2 = paths := congrArg Prod.snd looked
        have kept : ∀ e ∈ (g.paths.get (source, target, bound) 0).2.entries,
            e ∈ g.paths.entries := fun _ he => ResultCache.mem_entries_get he
        split at h
        · next found searched =>
          rcases ResultCache.mem_entries_store h with ⟨old, -⟩ | rfl
          · exact .inl (kept e old)
          · exact .inr ⟨bound, rfl, searched⟩
        · exact .inl (kept e h)
  · unfold pathWithout at h
    split at h
    · exact .inl h
    · split at h
      · exact .inl h
      · exact .inl h

/-- The paths that are remembered are those that a search finds. -/
def PathsCurrent (g : RelationshipGraph α) : Prop :=
  ∀ e ∈ g.paths.entries,
    g.searchPath? e.key.1 e.key.2.1 e.key.2.2.ceiling.toNat = some e.value

theorem Forgetful.pathsCurrent {g : RelationshipGraph α} (h : g.Forgetful) : g.PathsCurrent := by
  intro e he
  rw [h.2] at he
  cases he

theorem PathsCurrent.step {g : RelationshipGraph α} (h : g.PathsCurrent) (s : GraphStep α) :
    (s.apply g).PathsCurrent := by
  rcases remembers_cases g s with forgotten | ⟨same, -⟩ | ⟨now, rfl⟩ | ⟨id, now, rfl⟩ |
    ⟨source, target, hops, rfl⟩
  · exact forgotten.pathsCurrent
  · rw [same]
    exact h
  · exact fun e he => (searchPath?_validate g now ..).trans (h e he)
  · intro e he
    have kept := (sameContents_analyze g id now).sameStore
    rw [GraphStep.apply, paths_analyze] at he
    exact (kept.alike.searchPath? ..).trans (h e he)
  · intro e he
    have kept := (sameContents_path g source target hops).sameStore
    refine (kept.alike.searchPath? ..).trans ?_
    rcases entries_path he with old | ⟨bound, key, found⟩
    · exact h e old
    · rw [key]
      exact found

theorem pathsCurrent_reachable {g : RelationshipGraph α} (h : Reachable g) : g.PathsCurrent := by
  induction h with
  | created made => exact (forgetful_create made).pathsCurrent
  | step s _ ih => exact ih.step s

theorem pathWithin_eq {g : RelationshipGraph α} (h : g.PathsCurrent) (source target : String)
    (bound : Bound) :
    (g.pathWithin source target bound).1 =
      if source = target then some (.trivial source)
      else g.searchPath? source target bound.ceiling.toNat := by
  unfold pathWithin
  split
  · rfl
  · cases looked : g.paths.get (source, target, bound) 0 with
    | mk found paths =>
      cases found with
      | some found =>
        obtain ⟨e, he, key, rfl⟩ := ResultCache.mem_of_get (congrArg Prod.fst looked)
        have current := h e he
        rw [key] at current
        exact current.symm
      | none =>
        dsimp only
        split
        · next found => exact found.symm
        · next none => exact none.symm

/-- What two graphs remember of paths does not tell them apart. -/
theorem Alike.path {g g' : RelationshipGraph α} (h : Alike g g') (current : g.PathsCurrent)
    (current' : g'.PathsCurrent) (source target : String) (hops : Option (Extent Float)) :
    (g'.path source target hops).1 = (g.path source target hops).1 := by
  unfold RelationshipGraph.path
  rw [h.options]
  dsimp only
  split
  · dsimp only
    rw [pathWithin_eq current, pathWithin_eq current', h.searchPath?]
  · unfold pathWithout
    split
    · rfl
    · split
      · rfl
      · dsimp only
        rw [h.has, h.has]

/-- The graph after some steps. -/
def run (g : RelationshipGraph α) (steps : List (GraphStep α)) : RelationshipGraph α :=
  steps.foldl GraphStep.apply g

theorem run_concat (g : RelationshipGraph α) (steps : List (GraphStep α)) (s : GraphStep α) :
    g.run (steps ++ [s]) = s.apply (g.run steps) :=
  List.foldl_concat ..

/-- An analysis that a step made. It would be made in the same way at the end of the steps, but for
the marks of the validations since then. -/
def Recalled (g : RelationshipGraph α) (steps : List (GraphStep α)) (id : String)
    (a : RelationshipAnalysis α) : Prop :=
  ∃ before made after, steps = before ++ .analyze id made :: after ∧
    (g.run steps).has id = true ∧
    (g.run steps).analyzeAnew id made = .ok (a.validated (GraphStep.validations after))

variable {g : RelationshipGraph α} {steps : List (GraphStep α)} {id : String}
  {a : RelationshipAnalysis α}

/-- Steps after which the graph is the same, or has its edges marked, leave an analysis recalled. -/
theorem Recalled.concat {s : GraphStep α} (h : Recalled g steps id a)
    (has : (s.apply (g.run steps)).has id = (g.run steps).has id)
    (again : ∀ made a', (g.run steps).analyzeAnew id made = .ok a' →
      (s.apply (g.run steps)).analyzeAnew id made =
        .ok (a'.validated (GraphStep.validations [s]))) :
    Recalled g (steps ++ [s]) id a := by
  obtain ⟨before, made, after, rfl, known, anew⟩ := h
  refine ⟨before, made, after ++ [s], by simp, ?_, ?_⟩
  · rw [run_concat, has, known]
  · rw [run_concat, again made _ anew, RelationshipAnalysis.validated_append,
      GraphStep.validations_append]

theorem Recalled.concat_of_sameStore {s : GraphStep α} (h : Recalled g steps id a)
    (same : SameStore (g.run steps) (s.apply (g.run steps)))
    (unmarked : GraphStep.validations [s] = []) : Recalled g (steps ++ [s]) id a := by
  apply h.concat (same.alike.has id)
  intro made a' anew
  rw [same.analyzeAnew, anew, unmarked, RelationshipAnalysis.validated_nil]

/-- What is remembered was made by a step, and only marks were put on edges since then. -/
theorem recalled_run (empty : g.analyses.entries = []) (steps : List (GraphStep α)) :
    ∀ e ∈ (g.run steps).analyses.entries, Recalled g steps e.key e.value := by
  induction steps using List.reverseRecOn with
  | nil =>
    intro e he
    rw [run, List.foldl_nil, empty] at he
    cases he
  | append_singleton steps s ih =>
    intro e he
    rw [run_concat] at he
    rcases remembers_cases (g.run steps) s with forgotten | ⟨same, unmarked⟩ | ⟨now, rfl⟩ |
      ⟨id, now, rfl⟩ | ⟨source, target, hops, rfl⟩
    · rw [forgotten.1] at he
      cases he
    · have kept : SameStore (g.run steps) (s.apply (g.run steps)) := by
        rw [same]
        exact .refl _
      rw [same] at he
      exact (ih e he).concat_of_sameStore kept unmarked
    · refine (ih e he).concat (has_reworked (g.run steps) e.key) ?_
      intro made a' anew
      rw [GraphStep.apply, analyzeAnew_validate, anew]
      rfl
    · have same := (sameContents_analyze (g.run steps) id now).sameStore
      rcases entries_analyze he with old | ⟨key, known, anew⟩
      · exact (ih e old).concat_of_sameStore same rfl
      · refine ⟨steps, now, [], by rw [key], ?_, ?_⟩
        · rw [run_concat, key]
          exact (same.alike.has id).trans known
        · rw [run_concat, key]
          exact (same.analyzeAnew id now).trans
            (anew.trans (congrArg _ (RelationshipAnalysis.validated_nil _).symm))
    · rw [GraphStep.apply, analyses_path] at he
      exact (ih e he).concat_of_sameStore (sameContents_path _ source target hops).sameStore rfl

/-- An answer with nothing remembered is made there and then. -/
theorem analyze_of_empty (empty : g.analyses.entries = []) (id : String) (now : Moment) :
    (g.analyze id now).1 = if g.has id then g.analyzeAnew id now else .ok (.unknown id) := by
  have looked : g.analyses.get id 0 = (none, g.analyses.miss) := by
    rw [ResultCache.get, ResultCache.find?, empty]
    rfl
  have same : SameStore g { g with analyses := g.analyses.miss } := ⟨rfl, rfl, rfl, rfl⟩
  unfold analyze
  rw [looked]
  dsimp only
  rw [same.alike.has, same.analyzeAnew]
  split
  · split
    · next made => exact made.symm
    · next made => exact made.symm
  · rfl

/-- Where an answer about an entity comes from that is given at the end of some steps: it is made
now, or one of the steps made it. The times of the validations since then come with it. -/
def MadeAt (steps : List (GraphStep α)) (id : String) (now made : Moment) (late : List Moment) :
    Prop :=
  made = now ∧ late = [] ∨
    ∃ before after, steps = before ++ .analyze id made :: after ∧
      late = GraphStep.validations after

/-- An answer is what would be found out now, but for the marks of the validations since it was
made. -/
theorem answer_run (empty : g.analyses.entries = []) (steps : List (GraphStep α)) (id : String)
    (now : Moment) :
    ∃ made late, MadeAt steps id now made late ∧
      (if (g.run steps).has id then (g.run steps).analyzeAnew id made else .ok (.unknown id)) =
        ((g.run steps).analyze id now).1.map (·.validated late) := by
  have recalled := recalled_run empty steps
  generalize hm : g.run steps = m at recalled ⊢
  cases looked : m.analyses.get id 0 with
  | mk found analyses =>
    cases found with
    | some a =>
      obtain ⟨e, he, rfl, rfl⟩ := ResultCache.mem_of_get (congrArg Prod.fst looked)
      obtain ⟨before, made, after, shape, known, anew⟩ := recalled e he
      refine ⟨made, GraphStep.validations after, .inr ⟨before, after, shape, rfl⟩, ?_⟩
      rw [← hm, if_pos known, anew, hm, analyze, looked]
      rfl
    | none =>
      refine ⟨now, [], .inl ⟨rfl, rfl⟩, ?_⟩
      have same : SameStore m { m with analyses } := ⟨rfl, rfl, rfl, rfl⟩
      rw [RelationshipAnalysis.map_validated_nil, analyze, looked]
      dsimp only
      rw [same.alike.has, same.analyzeAnew]
      split
      · split
        · assumption
        · assumption
      · rfl

/-- Analyses are as good as new, but for the marks of validations. In a run of a graph that starts
with nothing remembered, an answer is what a graph with the same nodes, edges and settings gives
that remembers nothing, at the time when the answer was made, but without the marks that validations
put on the direct edges since then. So the two are equal exactly if there was no such validation, or
if there are no direct edges. -/
theorem analyze_run_anew (empty : g.analyses.entries = []) (steps : List (GraphStep α))
    (id : String) (now : Moment) :
    ∃ made late, MadeAt steps id now made late ∧
      ∀ f, SameStore (g.run steps) f → f.analyses.entries = [] →
        (f.analyze id made).1 = ((g.run steps).analyze id now).1.map (·.validated late) ∧
          (((g.run steps).analyze id now).1 = (f.analyze id made).1 ↔
            late = [] ∨ ∀ a, ((g.run steps).analyze id now).1 = .ok a → a.direct = []) := by
  obtain ⟨made, late, origin, fresh⟩ := answer_run empty steps id now
  refine ⟨made, late, origin, ?_⟩
  intro f same forgotten
  have anew : (f.analyze id made).1 = ((g.run steps).analyze id now).1.map (·.validated late) := by
    rw [analyze_of_empty forgotten, same.alike.has, same.analyzeAnew, fresh]
  refine ⟨anew, ?_⟩
  rw [anew]
  cases ((g.run steps).analyze id now).1 with
  | error why => simp [Except.map]
  | ok a => simpa [Except.map, eq_comm] using RelationshipAnalysis.validated_eq_self_iff

namespace Sample

/-- An edge is added, its source is looked at, and the graph is validated. -/
def inspected : List (GraphStep Float) :=
  [.add (edge "first" "a" "b") noon, .analyze "a" noon, .validate noon]

/-- How often the direct edges of an analysis were validated. -/
def validationCounts (answer : Except GraphTrouble (RelationshipAnalysis Float)) : List Int :=
  match answer with
  | .ok a => a.direct.map (·.metadata.validationCount)
  | .error _ => []

end Sample

theorem analyze_run_anew_inspected : ∃ g, create Sample.options Sample.noon = .ok g ∧
    g.analyses.entries = [] ∧ ∃ made late, MadeAt Sample.inspected "a" Sample.noon made late ∧
      ((g.run Sample.inspected).forget.analyze "a" made).1 =
        ((g.run Sample.inspected).analyze "a" Sample.noon).1.map (·.validated late) := by
  obtain ⟨g, hg⟩ : ∃ g, create Sample.options Sample.noon = .ok g := ⟨_, rfl⟩
  have empty : g.analyses.entries = [] := (forgetful_create hg).1
  obtain ⟨made, late, origin, anew⟩ := analyze_run_anew empty Sample.inspected "a" Sample.noon
  have same : SameStore (g.run Sample.inspected) (g.run Sample.inspected).forget :=
    ⟨rfl, rfl, rfl, rfl⟩
  exact ⟨g, hg, empty, made, late, origin, (anew _ same rfl).1⟩

/-- Validating marks the stored edges and keeps what is remembered, so an analysis that was made
before shows its direct edge as it was. -/
theorem analyze_inspected_old : ∃ g, create Sample.options Sample.noon = .ok g ∧
    Sample.validationCounts ((g.run Sample.inspected).analyze "a" Sample.noon).1 = [0] ∧
      Sample.validationCounts ((g.run Sample.inspected).forget.analyze "a" Sample.noon).1 = [1] ∧
      ((g.run Sample.inspected).analyze "a" Sample.noon).1 ≠
        ((g.run Sample.inspected).forget.analyze "a" Sample.noon).1 := by
  obtain ⟨g, hg⟩ : ∃ g, create Sample.options Sample.noon = .ok g := ⟨_, rfl⟩
  have old : Sample.validationCounts
      ((g.run Sample.inspected).analyze "a" Sample.noon).1 = [0] := by
    cases hg
    decide +kernel
  have new : Sample.validationCounts
      ((g.run Sample.inspected).forget.analyze "a" Sample.noon).1 = [1] := by
    cases hg
    decide +kernel
  refine ⟨g, hg, old, new, ?_⟩
  intro same
  rw [same, new] at old
  cases old

end RelationshipGraph

end EntityRules
