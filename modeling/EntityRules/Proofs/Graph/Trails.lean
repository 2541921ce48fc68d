import EntityRules.Proofs.Digraph.Hops
import EntityRules.Proofs.Graph.Links

/-! Trails: ways along stored edges that meet no entity twice. -/

namespace EntityRules.RelationshipGraph

open EntityRules.Digraph (IsWay Within)

variable {α : Type} {g : RelationshipGraph α} {u t : String} {before nodes : List String}
  {steps limit n : Nat} {choices : List Nat} {edges : List (Relationship α)} {r : Relationship α}

/-- The edges that are followed from an entity when each is chosen by its position. -/
def followed? (g : RelationshipGraph α) : String → List Nat → Option (List (Relationship α))
  | _, [] => some []
  | u, n :: choices =>
    (g.departing u)[n]?.bind fun r => (g.followed? r.target choices).map (r :: ·)

/-- A trail of some edges that leads on to an entity, with the entities met before it, the latest
one first. -/
structure IsTrail (g : RelationshipGraph α) (before : List String) (u t : String) (limit : Nat)
    (choices : List Nat) (edges : List (Relationship α)) : Prop where
  followed : g.followed? u choices = some edges
  nodup : (before.reverse ++ u :: edges.map (·.target)).Nodup
  stop : edges.getLast?.map (·.target) = some t
  bounded : edges.length ≤ limit

/-- The first trail to an entity in depth-first order. -/
structure IsFirstTrail (g : RelationshipGraph α) (before : List String) (u t : String)
    (limit : Nat) (choices : List Nat) (edges : List (Relationship α)) : Prop where
  trail : IsTrail g before u t limit choices edges
  first : ∀ choices' edges', IsTrail g before u t limit choices' edges' →
    choices' = choices ∨ List.Lex (· < ·) choices choices'

/-- There is one first trail at most. -/
theorem IsFirstTrail.unique {choices' : List Nat} {edges' : List (Relationship α)}
    (h : IsFirstTrail g before u t limit choices edges)
    (h' : IsFirstTrail g before u t limit choices' edges') : edges' = edges := by
  have same : choices' = choices := by
    rcases h.first _ _ h'.trail with same | ahead
    · exact same
    · rcases h'.first _ _ h.trail with same | behind
      · exact same.symm
      · exact absurd behind (Std.Asymm.asymm _ _ ahead)
  have followed := h'.trail.followed
  rw [same, h.trail.followed] at followed
  exact (Option.some.inj followed).symm

theorem followed?_cons (departs : (g.departing u)[n]? = some r)
    (behind : g.followed? r.target choices = some edges) :
    g.followed? u (n :: choices) = some (r :: edges) := by
  rw [followed?, departs, Option.bind_some, behind, Option.map_some]

theorem IsTrail.single (departs : (g.departing u)[n]? = some r)
    (nodup : (r.target :: u :: before).Nodup) :
    IsTrail g before u r.target (limit + 1) [n] [r] where
  followed := followed?_cons departs rfl
  nodup := by simpa using List.nodup_reverse.mpr nodup
  stop := rfl
  bounded := Nat.succ_le_succ (Nat.zero_le limit)

theorem IsTrail.cons (departs : (g.departing u)[n]? = some r)
    (behind : IsTrail g (u :: before) r.target t limit choices edges) :
    IsTrail g before u t (limit + 1) (n :: choices) (r :: edges) where
  followed := followed?_cons departs behind.followed
  nodup := by simpa using behind.nodup
  stop := by
    obtain ⟨last, found, same⟩ := Option.map_eq_some_iff.mp behind.stop
    rw [List.getLast?_cons, found, ← same]
    rfl
  bounded := Nat.succ_le_succ behind.bounded

/-- A trail ends with its first edge, or leads on from there. -/
theorem IsTrail.cases (h : IsTrail g before u t limit choices edges) :
    ∃ n rest r steps, choices = n :: rest ∧ limit = steps + 1 ∧ (g.departing u)[n]? = some r ∧
      r.target ∉ u :: before ∧
      (rest = [] ∧ edges = [r] ∧ r.target = t ∨
        ∃ others, edges = r :: others ∧ IsTrail g (u :: before) r.target t steps rest others) := by
  obtain ⟨followed, nodup, stop, bounded⟩ := h
  cases choices with
  | nil =>
    cases followed
    cases stop
  | cons n rest =>
    obtain ⟨r, departs, followed⟩ := Option.bind_eq_some_iff.mp followed
    obtain ⟨others, behind, rfl⟩ := Option.map_eq_some_iff.mp followed
    cases limit with
    | zero => cases bounded
    | succ steps =>
      have inside : ((u :: before).reverse ++ r.target :: others.map (·.target)).Nodup := by
        simpa using nodup
      have new : r.target ∉ u :: before := fun old =>
        (List.nodup_append'.mp inside).2.2 (List.mem_reverse.mpr old) List.mem_cons_self
      refine ⟨n, rest, r, steps, rfl, rfl, departs, new, ?_⟩
      cases others with
      | nil =>
        cases rest with
        | nil => exact .inl ⟨rfl, rfl, by simpa using stop⟩
        | cons m rest =>
          obtain ⟨e, -, more⟩ := Option.bind_eq_some_iff.mp behind
          obtain ⟨_, -, same⟩ := Option.map_eq_some_iff.mp more
          cases same
      | cons e others =>
        refine .inr ⟨e :: others, rfl, behind, inside, ?_, Nat.le_of_succ_le_succ bounded⟩
        rwa [List.getLast?_cons_cons] at stop

/-- The same when the first edge is known. -/
theorem IsTrail.over {rest : List Nat} (h : IsTrail g before u t (steps + 1) (n :: rest) edges)
    (departs : (g.departing u)[n]? = some r) :
    r.target ∉ u :: before ∧
      (rest = [] ∧ edges = [r] ∧ r.target = t ∨
        ∃ others, edges = r :: others ∧ IsTrail g (u :: before) r.target t steps rest others) := by
  obtain ⟨_, _, e, _, choices, limit, departs', led⟩ := h.cases
  cases choices
  cases limit
  obtain rfl : r = e := Option.some.inj (departs.symm.trans departs')
  exact led

theorem IsTrail.nodup_before (h : IsTrail g before u t limit choices edges) :
    (u :: before).Nodup := by
  have inside := h.nodup
  rw [List.append_cons, ← List.reverse_cons] at inside
  exact List.nodup_reverse.mp (List.nodup_append'.mp inside).1

theorem isChain_of_followed (h : Coherent g) (followed : g.followed? u choices = some edges) :
    (u :: edges.map (·.target)).IsChain g.Leads := by
  induction choices generalizing u edges with
  | nil =>
    cases followed
    exact .singleton u
  | cons n choices ih =>
    obtain ⟨r, departs, followed⟩ := Option.bind_eq_some_iff.mp followed
    obtain ⟨others, behind, rfl⟩ := Option.map_eq_some_iff.mp followed
    have edge : g.Leads u r.target := (leads_iff h).mpr ⟨r, List.mem_of_getElem? departs, rfl⟩
    exact .cons_cons edge (ih behind)

/-- The links between entities can be followed along stored edges. -/
theorem exists_followed (h : Coherent g) (linked : (u :: nodes).IsChain g.Leads) :
    ∃ choices edges, g.followed? u choices = some edges ∧ edges.map (·.target) = nodes := by
  induction nodes generalizing u with
  | nil => exact ⟨[], [], rfl, rfl⟩
  | cons v nodes ih =>
    obtain ⟨edge, linked⟩ := List.isChain_cons_cons.mp linked
    obtain ⟨r, hr, rfl⟩ := (leads_iff h).mp edge
    obtain ⟨n, departs⟩ := List.getElem?_of_mem hr
    obtain ⟨choices, edges, followed, rfl⟩ := ih linked
    exact ⟨n :: choices, r :: edges, followed?_cons departs followed, rfl⟩

theorem IsTrail.isWay (h : Coherent g) (trail : IsTrail g before u t limit choices edges) :
    IsWay g.Leads u t (u :: edges.map (·.target)) where
  start := rfl
  stop := by
    rw [List.getLast?_cons, List.getLast?_map, trail.stop]
    rfl
  linked := isChain_of_followed h trail.followed

theorem IsTrail.within (h : Coherent g) (trail : IsTrail g before u t limit choices edges) :
    Within g.Leads u limit t :=
  (trail.isWay h).within (by simpa using trail.bounded)

/-- A way to another entity that meets no entity twice is a trail. -/
theorem exists_isTrail_of_isWay (h : Coherent g) (way : IsWay g.Leads u t nodes)
    (nodup : nodes.Nodup) (differ : u ≠ t) (le : nodes.length ≤ limit + 1) :
    ∃ choices edges, IsTrail g [] u t limit choices edges := by
  cases nodes with
  | nil => cases way.start
  | cons v nodes =>
    obtain rfl : v = u := by simpa using way.start
    obtain ⟨choices, edges, followed, rfl⟩ := exists_followed h way.linked
    refine ⟨choices, edges, followed, nodup, ?_, by simpa using le⟩
    have stop := way.stop
    rw [List.getLast?_cons, List.getLast?_map] at stop
    cases last : edges.getLast?.map (·.target) with
    | none =>
      rw [last] at stop
      exact absurd (Option.some.inj stop) differ
    | some x =>
      rw [last] at stop
      exact stop

/-- What the search finds over an edge. -/
def beyond (g : RelationshipGraph α) (steps : Nat) (seen : List String) (r : Relationship α) :
    List (Relationship α × List String) :=
  if r.target ∈ seen then [] else (r, seen) :: g.trailsFrom steps (r.target :: seen)

theorem trailsFrom_succ (g : RelationshipGraph α) (steps : Nat) (u : String)
    (before : List String) :
    g.trailsFrom (steps + 1) (u :: before) =
      (g.departing u).flatMap (g.beyond steps (u :: before)) := by
  rw [trailsFrom]
  rfl

/-- The last edge of the first trail to an entity, with the entities before it, is what a search for
the entity comes to; it comes to nothing when there is no trail. -/
def Finds (g : RelationshipGraph α) (before : List String) (u t : String) (limit : Nat) :
    Option (Relationship α × List String) → Prop
  | some (last, seen) => ∃ choices edges, IsFirstTrail g before u t limit choices edges ∧
      edges.getLast? = some last ∧ seen.length = before.length + edges.length
  | none => ∀ choices edges, ¬IsTrail g before u t limit choices edges

section

variable (behind : ∀ {u before}, (u :: before).Nodup →
  Finds g before u t steps ((g.trailsFrom steps (u :: before)).find? (·.1.target = t)))

include behind

theorem not_isTrail_of_beyond {rest : List Nat} (departs : (g.departing u)[n]? = some r)
    (none : (g.beyond steps (u :: before) r).find? (·.1.target = t) = none) :
    ¬IsTrail g before u t (steps + 1) (n :: rest) edges := by
  intro trail
  obtain ⟨new, led⟩ := trail.over departs
  rw [beyond, if_neg new, List.find?_cons] at none
  split at none
  · cases none
  · next other =>
    rcases led with ⟨-, -, arrived⟩ | ⟨others, -, onward⟩
    · simp [arrived] at other
    · have found : Finds g (u :: before) r.target t steps _ := behind onward.nodup_before
      rw [none] at found
      exact found _ _ onward

theorem exists_isTrail_of_beyond (nodup : (u :: before).Nodup)
    (departs : (g.departing u)[n]? = some r) {last : Relationship α} {seen : List String}
    (some : (g.beyond steps (u :: before) r).find? (·.1.target = t) = some (last, seen)) :
    ∃ rest edges, IsTrail g before u t (steps + 1) (n :: rest) edges ∧
      (∀ rest' edges', IsTrail g before u t (steps + 1) (n :: rest') edges' →
        rest' = rest ∨ List.Lex (· < ·) rest rest') ∧
      edges.getLast? = .some last ∧ seen.length = before.length + edges.length := by
  rw [beyond] at some
  split at some
  · cases some
  · next new =>
    have met : (r.target :: u :: before).Nodup := List.nodup_cons.mpr ⟨new, nodup⟩
    rw [List.find?_cons] at some
    split at some
    · next arrived =>
      obtain rfl : r.target = t := by simpa using arrived
      cases some
      refine ⟨[], [r], .single departs met, fun rest' _ _ => ?_, rfl, rfl⟩
      cases rest' with
      | nil => exact .inl rfl
      | cons m rest' => exact .inr .nil
    · next other =>
      have found := behind met
      rw [some] at found
      obtain ⟨rest, edges, ⟨onward, first⟩, ends, length⟩ := found
      refine ⟨rest, r :: edges, .cons departs onward, fun rest' edges' trail => ?_, ?_, ?_⟩
      · rcases (trail.over departs).2 with ⟨-, -, arrived⟩ | ⟨others, -, onward'⟩
        · simp [arrived] at other
        · exact first _ _ onward'
      · rw [List.getLast?_cons, ends]
        rfl
      · rw [length, List.length_cons, List.length_cons]
        omega

end

/-- The search for an entity finds the first trail to it. -/
theorem finds_trailsFrom (g : RelationshipGraph α) (t : String) (steps : Nat)
    (nodup : (u :: before).Nodup) :
    Finds g before u t steps ((g.trailsFrom steps (u :: before)).find? (·.1.target = t)) := by
  induction steps generalizing u before with
  | zero =>
    intro choices edges trail
    obtain ⟨_, _, _, _, _, none, _⟩ := trail.cases
    cases none
  | succ steps ih =>
    rw [trailsFrom_succ, List.find?_flatMap]
    cases found : (g.departing u).findSome? fun r =>
        (g.beyond steps (u :: before) r).find? (·.1.target = t) with
    | none =>
      intro choices edges trail
      obtain ⟨n, rest, r, _, rfl, _, departs, _⟩ := trail.cases
      exact not_isTrail_of_beyond ih departs
        (List.findSome?_eq_none_iff.mp found r (List.mem_of_getElem? departs)) trail
    | some arrival =>
      obtain ⟨last, seen⟩ := arrival
      obtain ⟨missed, r, others, departing, here, nothing⟩ := List.findSome?_eq_some_iff.mp found
      have departs : (g.departing u)[missed.length]? = some r := by simp [departing]
      obtain ⟨rest, edges, trail, first, ends, length⟩ :=
        exists_isTrail_of_beyond ih nodup departs here
      refine ⟨missed.length :: rest, edges, ⟨trail, fun choices' edges' trail' => ?_⟩, ends, length⟩
      obtain ⟨m, rest', e, _, rfl, _, departs', _⟩ := trail'.cases
      rcases Nat.lt_trichotomy m missed.length with earlier | rfl | later
      · have early : e ∈ missed := by
          rw [departing, List.getElem?_append_left earlier] at departs'
          exact List.mem_of_getElem? departs'
        exact absurd trail' (not_isTrail_of_beyond ih departs' (nothing e early))
      · rcases first rest' edges' trail' with rfl | behind
        · exact .inl rfl
        · exact .inr (.cons behind)
      · exact .inr (.rel later)

end EntityRules.RelationshipGraph
