import EntityRules.Document.Loading
import EntityRules.Proofs.Except
import EntityRules.Proofs.Graph.Paths
import EntityRules.Proofs.Graph.Status
import EntityRules.Proofs.Members

/-! The graph that a document describes. -/

namespace EntityRules

variable {α : Type}

/-- The relationship that is listed last under each key. -/
def lastListed (listed : List (Relationship α)) : EdgeMap α :=
  fun k => listed.reverse.find? (·.key = k)

section

variable {listed : List (Relationship α)} {r : Relationship α}

theorem lastListed_concat (listed : List (Relationship α)) (r : Relationship α) :
    lastListed (listed ++ [r]) = Function.update (lastListed listed) r.key (some r) := by
  funext k
  rw [lastListed, List.reverse_append, List.reverse_singleton, List.singleton_append]
  by_cases same : k = r.key
  · rw [same, Function.update_self, List.find?_cons_of_pos (by simp)]
  · rw [Function.update_of_ne same, List.find?_cons_of_neg (by simpa using Ne.symm same)]
    rfl

theorem mem_of_lastListed {k : EdgeKey} (h : lastListed listed k = some r) :
    r ∈ listed ∧ r.key = k :=
  ⟨List.mem_reverse.mp (List.mem_of_find?_eq_some h), by simpa using List.find?_some h⟩

theorem exists_lastListed (h : r ∈ listed) : ∃ last, lastListed listed r.key = some last := by
  rw [← Option.isSome_iff_exists, lastListed, List.find?_isSome]
  exact ⟨r, List.mem_reverse.mpr h, decide_eq_true rfl⟩

end

namespace RelationshipGraph

variable {g : RelationshipGraph α}

theorem Holds.mem_iff {m : EdgeMap α} (h : Holds g m) {e : Relationship α} :
    e ∈ g.edges ↔ m e.key = some e := by
  have found := Option.mem_toList (a := e) (o := m e.key)
  rw [← h e.key, List.mem_filter] at found
  simpa using found

theorem mem_registered_register (g : RelationshipGraph α) (id other : String) (now : Moment) :
    other ∈ (g.register id now).registered ↔ other ∈ g.registered ∨ other = id := by
  unfold register
  split
  · next known =>
    have known : id ∈ g.registered := by simpa using known
    exact ⟨.inl, fun h => h.elim (fun there => there) fun same => same ▸ known⟩
  · exact List.mem_append.trans (or_congr_right List.mem_singleton)

theorem options_create {options : GraphOptions α} {now : Moment}
    (made : create options now = .ok g) : g.options = options := by
  obtain ⟨analyses, -, made⟩ := bind_eq_ok.mp made
  obtain ⟨paths, -, made⟩ := bind_eq_ok.mp made
  cases made
  rfl

theorem options_register (g : RelationshipGraph α) (id : String) (now : Moment) :
    (g.register id now).options = g.options := by
  unfold register
  split <;> rfl

/-- A graph that has come about by registering some entities and storing some relationships. -/
structure Built [Scalar α] (options : GraphOptions α) (ids : List String)
    (listed : List (Relationship α)) (g : RelationshipGraph α) : Prop where
  reachable : Reachable g
  options : g.options = options
  registered : ∀ id, id ∈ g.registered ↔ id ∈ ids
  edges : Holds g (lastListed listed)

section

variable [Scalar α] {options : GraphOptions α} {ids : List String}
  {listed : List (Relationship α)} {now : Moment}

theorem built_created (made : create options now = .ok g) : Built options [] [] g where
  reachable := .created made
  options := options_create made
  registered id := by rw [(create_eq_ok made).2.2.1]
  edges k := by rw [RelationshipGraph.edges, (create_eq_ok made).1]; rfl

variable (now)

theorem Built.register (h : Built options ids listed g) (id : String) :
    Built options (ids ++ [id]) listed (g.register id now) where
  reachable := h.reachable.step (.register id now)
  options := (options_register g id now).trans h.options
  registered other := by
    rw [mem_registered_register, h.registered, List.mem_append, List.mem_singleton]
  edges := h.edges.of_outgoing (outgoing_register g id now)

theorem Built.add (h : Built options ids listed g) (r : Relationship α) :
    Built options ids (listed ++ [r]) (g.add r now) where
  reachable := h.reachable.step (.add r now)
  options := h.options
  registered := h.registered
  edges := by
    rw [lastListed_concat]
    exact h.edges.add (coherent_reachable h.reachable) r now

theorem Built.registerAll (h : Built options ids listed g) (more : List String) :
    Built options (ids ++ more) listed (more.foldl (·.register · now) g) := by
  induction more generalizing g ids with
  | nil => rwa [List.append_nil]
  | cons id rest ih =>
    rw [List.append_cons]
    exact ih (h.register now id)

theorem Built.addAll (h : Built options ids listed g) (more : List (Relationship α)) :
    Built options ids (listed ++ more) (more.foldl (·.add · now) g) := by
  induction more generalizing g listed with
  | nil => rwa [List.append_nil]
  | cons r rest ih =>
    rw [List.append_cons]
    exact ih (h.add now r)

/-- What is asked of keys alone is asked of the relationships that are listed. -/
theorem Built.exists_edge_iff (h : Built options ids listed g) (p : EdgeKey → Prop) :
    (∃ e ∈ g.edges, p e.key) ↔ ∃ r ∈ listed, p r.key := by
  constructor
  · rintro ⟨e, he, holds⟩
    exact ⟨e, (mem_of_lastListed (h.edges.mem_iff.mp he)).1, holds⟩
  · rintro ⟨r, hr, holds⟩
    obtain ⟨last, found⟩ := exists_lastListed hr
    have same := (mem_of_lastListed found).2
    exact ⟨last, h.edges.mem_iff.mpr (same ▸ found), same ▸ holds⟩

end

end RelationshipGraph

namespace RuleDocument

open EntityRules.Digraph (IsWay)

variable (d : RuleDocument)

/-- The document has an entity, or a record or an end of a relationship with a name. -/
def Mentions (id : String) : Prop :=
  id ∈ Members.names d.entities ∨ (∃ r ∈ d.records, r.id = id) ∨
    ∃ r ∈ d.relationships, r.source = id ∨ r.target = id

/-- A relationship is listed that leads from one entity to another one. -/
def Leads (u v : String) : Prop := u ≠ v ∧ ∃ r ∈ d.relationships, r.source = u ∧ r.target = v

/-- An entity is the other one, or leads to it within a number of hops. -/
def Connects (hops : Int) (source target : String) : Prop :=
  source = target ∨
    ∃ nodes, IsWay d.Leads source target nodes ∧ (nodes.length : Int) - 1 ≤ hops

end RuleDocument

namespace RelationshipGraph

/-- A graph that depicts a document: the nodes are what the document mentions, and for every key
there is the relationship that is listed last, at both its ends. -/
structure Depicts (g : RelationshipGraph Float) (d : RuleDocument) : Prop where
  nodes : ∀ id, id ∈ g.nodes ↔ d.Mentions id
  distinct : g.nodes.Nodup
  edges : Holds g (lastListed d.relationships)
  incoming : ∀ k, (g.incomingOf k.2.1).filter (·.key = k) = (lastListed d.relationships k).toList

end RelationshipGraph

namespace RuleDocument

open RelationshipGraph

variable {d : RuleDocument} {options : GraphOptions Float} {made : Moment}
  {g : RelationshipGraph Float} (described : d.graph options made = .ok g)

include described

theorem built_graph :
    Built options (Members.names d.entities ++ d.records.map (·.id)) d.relationships g := by
  obtain ⟨empty, created, rfl⟩ := map_eq_ok.mp described
  exact ((built_created created).registerAll made _).addAll made _

theorem depicts_graph : g.Depicts d := by
  have built := built_graph described
  have coherent := coherent_reachable built.reachable
  constructor
  · intro id
    have sources := built.exists_edge_iff (·.1 = id)
    have targets := built.exists_edge_iff (·.2.1 = id)
    simp only [Relationship.key] at sources targets
    rw [mem_nodes coherent, has_iff_mem_mentioned coherent, mem_mentioned, built.registered,
      sources, targets, List.mem_append, List.mem_map, Mentions]
    simp only [and_or_left, exists_or]
    rw [← or_assoc, or_comm, or_assoc]
  · exact Members.nodup_eraseDups _
  · exact built.edges
  · exact built.edges.filter_incomingOf coherent

theorem leads_graph : g.Leads = d.Leads := by
  funext u v
  have same := (built_graph described).exists_edge_iff fun k => k.1 = u ∧ k.2.1 = v
  simp only [Relationship.key] at same
  simp only [RelationshipGraph.Leads, Links, Leads, and_true, same]

theorem isSome_path_graph {hops : Int} (limited : options.pathHops = .whole hops)
    (source target : String) :
    (g.path source target none).1.toOption.join.isSome = true ↔
      d.Connects hops source target := by
  have built := built_graph described
  by_cases same : source = target
  · subst same
    rw [path_self]
    exact iff_of_true rfl (.inl rfl)
  · have bound : (none.getD g.options.pathHops).bound Extent.notReached = .ok (.ofInt hops) := by
      rw [built.options, Option.getD_none, limited]
      rfl
    obtain ⟨found, answer, found_iff, -⟩ := built.reachable.path_within same bound
    rw [leads_graph described] at found_iff
    rw [answer, Connects, or_iff_right same, ← found_iff]
    rfl

/-- The only defects that are left to be found are relationships that lead back. -/
theorem isValid_graph (now : Moment) :
    (g.validate now).1.isValid = true ↔ ∀ r ∈ d.relationships, r.source ≠ r.target := by
  have built := built_graph described
  have found := issues_eq_nil_iff (coherent_reachable built.reachable).bySource
  have back := built.exists_edge_iff fun k => k.1 = k.2.1
  rw [GraphReport.isValid, List.isEmpty_iff]
  refine found.trans ⟨fun sound r hr same => ?_, fun onward => ⟨?_, built.edges.nodup⟩⟩
  · obtain ⟨e, he, same⟩ := back.mpr ⟨r, hr, same⟩
    exact sound.leads_on e he same
  · intro e he same
    obtain ⟨r, hr, same⟩ := back.mp ⟨e, he, same⟩
    exact onward r hr same

end RuleDocument

end EntityRules
