import EntityRules.Graph
import EntityRules.Proofs.Members
import Mathlib.Data.List.Perm.Basic

/-! Edges kept under names. -/

namespace EntityRules.RelationshipGraph

open Members

variable {α β γ : Type} {key : β → String} {ms : Members (List β)}

/-- Every edge stands under the name that a key gives it, and no name stands without edges. -/
structure Keyed (key : β → String) (ms : Members (List β)) : Prop where
  distinct : (names ms).Nodup
  filled : ∀ m ∈ ms, m.2 ≠ []
  placed : ∀ m ∈ ms, ∀ r ∈ m.2, key r = m.1

/-- The edges under a name. -/
def under (ms : Members (List β)) (name : String) : List β :=
  (ms.get? name).getD []

theorem outgoingOf_eq (g : RelationshipGraph α) (id : String) :
    g.outgoingOf id = under g.outgoing id := rfl

theorem incomingOf_eq (g : RelationshipGraph α) (id : String) :
    g.incomingOf id = under g.incoming id := rfl

theorem under_put (ms : Members (List β)) (name other : String) (edges : List β) :
    under (ms.put name edges) other = if name = other then edges else under ms other := by
  rw [under, get?_put]
  split <;> rfl

theorem under_putEdges (ms : Members (List β)) (name other : String) (edges : List β) :
    under (putEdges ms name edges) other = if name = other then edges else under ms other := by
  unfold putEdges
  split
  · next h =>
    rw [under, get?_erase, List.isEmpty_iff.1 h]
    split <;> rfl
  · exact under_put ..

theorem under_map (ms : Members (List β)) (f : β → γ) (name : String) :
    under (ms.map fun m => (m.1, m.2.map f)) name = (under ms name).map f := by
  rw [under, under, get?_map]
  cases ms.get? name <;> rfl

theorem edgesOf_map (ms : Members (List β)) (f : β → γ) :
    edgesOf (ms.map fun m => (m.1, m.2.map f)) = (edgesOf ms).map f := by
  simp [edgesOf, List.flatMap_map, List.map_flatMap]

theorem Keyed.nil : Keyed key ([] : Members (List β)) :=
  ⟨by simp [names], by simp, by simp⟩

theorem Keyed.key_eq (h : Keyed key ms) {name : String} {r : β}
    (hr : r ∈ under ms name) : key r = name := by
  cases hg : ms.get? name with
  | none => simp [under, hg] at hr
  | some edges => exact h.placed _ (mem_of_get? hg) r (by simpa [under, hg] using hr)

theorem Keyed.put (h : Keyed key ms) {name : String} {edges : List β}
    (hne : edges ≠ []) (hk : ∀ r ∈ edges, key r = name) : Keyed key (ms.put name edges) where
  distinct := nodup_put h.distinct ..
  filled m hm := by
    rcases mem_put hm with rfl | hm
    · exact hne
    · exact h.filled m hm
  placed m hm := by
    rcases mem_put hm with rfl | hm
    · exact hk
    · exact h.placed m hm

theorem Keyed.putEdges (h : Keyed key ms) {name : String} {edges : List β}
    (hk : ∀ r ∈ edges, key r = name) : Keyed key (putEdges ms name edges) := by
  unfold RelationshipGraph.putEdges
  split
  · have hsub : ∀ m ∈ ms.erase name, m ∈ ms := fun m hm => (List.mem_filter.1 hm).1
    exact ⟨nodup_erase h.distinct _, fun m hm => h.filled m (hsub m hm),
      fun m hm => h.placed m (hsub m hm)⟩
  · next hne => exact h.put (by simpa using hne) hk

theorem Keyed.map (h : Keyed key ms) {key' : γ → String} {f : β → γ}
    (hf : ∀ r, key' (f r) = key r) : Keyed key' (ms.map fun m => (m.1, m.2.map f)) where
  distinct := by
    simpa only [names, List.map_map, Function.comp_def] using h.distinct
  filled m hm := by
    obtain ⟨m', hm', rfl⟩ := List.mem_map.1 hm
    simpa using h.filled m' hm'
  placed m hm r hr := by
    obtain ⟨m', hm', rfl⟩ := List.mem_map.1 hm
    obtain ⟨r', hr', rfl⟩ := List.mem_map.1 hr
    rw [hf, h.placed m' hm' r' hr']

/-- A full scan for the edges with a key finds those under its name, in their order. -/
theorem Keyed.filter_edgesOf (h : Keyed key ms) (name : String) :
    (edgesOf ms).filter (key · = name) = under ms name := by
  obtain ⟨hd, -, hp⟩ := h
  induction ms with
  | nil => rfl
  | cons m rest ih =>
    obtain ⟨hm, hd⟩ := List.nodup_cons.1 hd
    have hrest := ih hd fun m' hm' => hp m' (List.mem_cons_of_mem _ hm')
    have hown := hp m (List.mem_cons_self ..)
    rw [edgesOf, List.flatMap_cons, List.filter_append, ← edgesOf, hrest, under, under, get?_cons]
    by_cases hn : m.1 = name
    · have hnone : Members.get? rest name = none := get?_eq_none_iff.2 (hn ▸ hm)
      rw [if_pos hn, hnone, List.filter_eq_self.2 (by simpa [← hn] using hown)]
      simp
    · rw [if_neg hn, List.filter_eq_nil_iff.2 (by
        intro r hr
        simpa [hown r hr] using hn)]
      rfl

theorem Keyed.mem_edgesOf_iff (h : Keyed key ms) {r : β} :
    r ∈ edgesOf ms ↔ r ∈ under ms (key r) := by
  rw [← h.filter_edgesOf, List.mem_filter]
  simp

theorem Keyed.has_iff (h : Keyed key ms) {name : String} :
    ms.has name = true ↔ ∃ r ∈ edgesOf ms, key r = name := by
  rw [has_iff_mem_names]
  constructor
  · intro hn
    obtain ⟨m, hm, rfl⟩ := List.mem_map.1 hn
    obtain ⟨r, hr⟩ := List.exists_mem_of_ne_nil _ (h.filled m hm)
    exact ⟨r, List.mem_flatMap.2 ⟨m, hm, hr⟩, h.placed m hm r hr⟩
  · rintro ⟨r, hr, rfl⟩
    obtain ⟨m, hm, hr⟩ := List.mem_flatMap.1 hr
    exact List.mem_map.2 ⟨m, hm, (h.placed m hm r hr).symm⟩

/-- Taking edges with a name away matters only to those that look for that name. -/
theorem filter_without (f : β → String) (unwanted : β → Bool) (a b : String) (edges : List β) :
    (edges.filter fun r => !(f r = a && unwanted r)).filter (f · = b) =
      if a = b then (edges.filter (f · = b)).filter (!unwanted ·)
      else edges.filter (f · = b) := by
  rw [List.filter_filter]
  split
  · next h =>
    rw [List.filter_filter]
    refine List.filter_congr fun r _ => ?_
    by_cases hr : f r = b <;> simp [h, hr]
  · next h =>
    refine List.filter_congr fun r _ => ?_
    by_cases hr : f r = b
    · simp [hr, Ne.symm h]
    · simp [hr]

/-- If the edges between any two names stand in the same order in both indexes, the edges under a
name in the second one are those that a scan of the first one finds. -/
theorem Keyed.perm_of_agree {source target : β → String} {ms ms' : Members (List β)}
    (h : Keyed source ms) (h' : Keyed target ms')
    (agree : ∀ s t, (under ms s).filter (target · = t) = (under ms' t).filter (source · = s))
    (t : String) : (under ms' t).Perm ((edgesOf ms).filter (target · = t)) := by
  classical
  rw [List.perm_iff_count]
  intro r
  by_cases ht : target r = t
  · have scan : (edgesOf ms).filter (source · = source r) = under ms (source r) :=
      h.filter_edgesOf (source r)
    calc (under ms' t).count r
        = ((under ms' t).filter (source · = source r)).count r := by
          rw [List.count_filter (by simp)]
      _ = ((under ms (source r)).filter (target · = t)).count r := by rw [agree]
      _ = (under ms (source r)).count r := List.count_filter (by simpa using ht)
      _ = ((edgesOf ms).filter (source · = source r)).count r := by rw [scan]
      _ = (edgesOf ms).count r := List.count_filter (by simp)
      _ = ((edgesOf ms).filter (target · = t)).count r :=
          (List.count_filter (by simpa using ht)).symm
  · rw [List.count_eq_zero_of_not_mem, List.count_eq_zero_of_not_mem]
    · intro hr
      simpa [ht] using (List.mem_filter.1 hr).2
    · intro hr
      exact ht (h'.key_eq hr)

/-- Edges that are put one by one under their names come behind those that stand there. -/
theorem under_foldl (edges : List β) (ms : Members (List β))
    (name : String) :
    under (edges.foldl (fun ms r => ms.put (key r) (under ms (key r) ++ [r])) ms) name =
      under ms name ++ edges.filter (key · = name) := by
  induction edges generalizing ms with
  | nil => simp
  | cons r rest ih =>
    rw [List.foldl_cons, ih, under_put]
    by_cases h : key r = name <;> simp [h]

theorem under_indexBy (key : β → String) (edges : List β)
    (name : String) : under (indexBy key edges) name = edges.filter (key · = name) :=
  under_foldl edges [] name

theorem map_indexBy (f : β → γ) (key : γ → String) (edges : List β) :
    (indexBy (fun r => key (f r)) edges).map (fun m => (m.1, m.2.map f)) =
      indexBy key (edges.map f) := by
  suffices from_any : ∀ ms : Members (List β),
      (edges.foldl (fun (ms : Members (List β)) r =>
          ms.put (key (f r)) (under ms (key (f r)) ++ [r])) ms).map (fun m => (m.1, m.2.map f)) =
        (edges.map f).foldl (fun (ms : Members (List γ)) r =>
          ms.put (key r) (under ms (key r) ++ [r])) (ms.map fun m => (m.1, m.2.map f)) from
    from_any []
  induction edges with
  | nil => exact fun _ => rfl
  | cons r rest ih =>
    intro ms
    rw [List.map_cons, List.foldl_cons, List.foldl_cons, ih, map_put, under_map, List.map_append]
    rfl

theorem Keyed.foldl (edges : List β) (h : Keyed key ms) :
    Keyed key (edges.foldl (fun ms r => ms.put (key r) (under ms (key r) ++ [r])) ms) := by
  induction edges generalizing ms with
  | nil => exact h
  | cons r rest ih =>
    refine ih (h.put (by simp) ?_)
    intro e he
    rcases List.mem_append.1 he with he | he
    · exact h.key_eq he
    · rw [List.mem_singleton.1 he]

theorem mem_edgesOf_indexBy {edges : List β} {r : β} :
    r ∈ edgesOf (indexBy key edges) ↔ r ∈ edges := by
  have keyed : Keyed key (indexBy key edges) := Keyed.foldl edges .nil
  rw [keyed.mem_edgesOf_iff, under_indexBy, List.mem_filter]
  simp

theorem keyed_indexBy (key : β → String) (edges : List β) :
    Keyed key (indexBy key edges) :=
  Keyed.foldl edges .nil

section

variable {κ : Type} [DecidableEq κ]

theorem place_ne_nil (key : β → κ) (r : β) (edges : List β) : place key r edges ≠ [] := by
  cases edges with
  | nil => simp [place]
  | cons e rest =>
    rw [place]
    split <;> simp

variable {key : β → κ} {r e : β} {edges : List β}

theorem mem_place_self (key : β → κ) (r : β) (edges : List β) : r ∈ place key r edges := by
  induction edges with
  | nil => exact List.mem_singleton_self r
  | cons e rest ih =>
    rw [place]
    split
    · exact List.mem_cons_self
    · exact List.mem_cons_of_mem _ ih

theorem mem_place (h : e ∈ place key r edges) : e = r ∨ e ∈ edges := by
  induction edges with
  | nil => simpa [place] using h
  | cons e' rest ih =>
    rw [place] at h
    split at h
    · exact (List.mem_cons.1 h).imp_right (List.mem_cons_of_mem _)
    · rcases List.mem_cons.1 h with rfl | h
      · exact .inr (List.mem_cons_self ..)
      · exact (ih h).imp_right (List.mem_cons_of_mem _)

theorem place_of_mem {old : β} (h : old ∈ edges) (same : key old = key r) :
    ∃ before e behind, edges = before ++ e :: behind ∧ key e = key r ∧
      place key r edges = before ++ r :: behind := by
  induction edges with
  | nil => cases h
  | cons e rest ih =>
    by_cases first : key e = key r
    · exact ⟨[], e, rest, rfl, first, by rw [place, if_pos first]; rfl⟩
    · have later : old ∈ rest := by
        rcases List.mem_cons.mp h with rfl | later
        · exact absurd same first
        · exact later
      obtain ⟨before, e', behind, rfl, found, placed⟩ := ih later
      exact ⟨e :: before, e', behind, rfl, found, by rw [place, if_neg first, placed]; rfl⟩

theorem place_of_new (new : ∀ e ∈ edges, key e ≠ key r) : place key r edges = edges ++ [r] := by
  induction edges with
  | nil => rfl
  | cons e rest ih =>
    obtain ⟨first, new⟩ := List.forall_mem_cons.mp new
    rw [place, if_neg first, ih new]
    rfl

/-- A question about the key alone finds the edge in its place among those that it keeps. -/
theorem filter_place {p : β → Bool} (edges : List β) (hp : ∀ e, key e = key r → p e = p r) :
    (place key r edges).filter p =
      if p r then place key r (edges.filter p) else edges.filter p := by
  induction edges with
  | nil => by_cases h : p r <;> simp [place, h]
  | cons e rest ih =>
    by_cases hk : key e = key r
    · by_cases h : p r
      · have he : p e := by rw [hp e hk, h]
        simp [place, hk, h, he]
      · have he : ¬ p e := by rw [hp e hk]; exact h
        simp [place, hk, h, he]
    · rw [place, if_neg hk, List.filter_cons, List.filter_cons, ih]
      by_cases h : p r <;> by_cases he : p e <;> simp [place, h, he, hk]

end

end EntityRules.RelationshipGraph
