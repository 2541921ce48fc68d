import EntityRules.Json
import Mathlib.Data.List.Nodup

/-! What becomes of named members under the operations on them. -/

namespace EntityRules.Members

variable {α β : Type} {ms : Members α} {name other : String} {value : α}

theorem get?_erase (ms : Members α) (name other : String) :
    (ms.erase name).get? other = if name = other then none else ms.get? other := by
  induction ms with
  | nil => simp [erase]
  | cons m rest ih =>
    by_cases h : m.1 = name
    · rw [erase, List.filter_cons_of_neg (by simp [h]), ← erase, ih, get?_cons]
      split <;> simp_all
    · rw [erase, List.filter_cons_of_pos (by simp [h]), ← erase, get?_cons, get?_cons, ih]
      by_cases ho : m.1 = other
      · simp [ho, show name ≠ other by rintro rfl; exact h ho]
      · simp [ho]

theorem get?_map (ms : Members α) (f : α → β) (name : String) :
    get? (ms.map fun m => (m.1, f m.2)) name = (ms.get? name).map f := by
  induction ms with
  | nil => rfl
  | cons m rest ih =>
    rw [List.map_cons, get?_cons, get?_cons, ih]
    split <;> rfl

theorem mem_of_get? (h : ms.get? name = some value) : (name, value) ∈ ms := by
  induction ms with
  | nil => simp at h
  | cons m rest ih =>
    rw [get?_cons] at h
    split at h
    · next hm =>
      obtain rfl : m.2 = value := by simpa using h
      simp [← hm]
    · exact List.mem_cons_of_mem _ (ih h)

theorem get?_of_mem (hn : (names ms).Nodup) (h : (name, value) ∈ ms) :
    ms.get? name = some value := by
  induction ms with
  | nil => simp at h
  | cons m rest ih =>
    obtain ⟨hm, hn⟩ := List.nodup_cons.1 hn
    rcases List.mem_cons.1 h with rfl | h
    · simp [get?_cons]
    · have hne : m.1 ≠ name := by
        rintro rfl
        exact hm (List.mem_map.2 ⟨_, h, rfl⟩)
      rw [get?_cons, if_neg hne, ih hn h]

theorem get?_eq_none_iff : ms.get? name = none ↔ name ∉ names ms := by
  induction ms with
  | nil => simp [names]
  | cons m rest ih =>
    rw [get?_cons, names, List.map_cons, List.mem_cons, ← names]
    by_cases h : m.1 = name
    · simp [h]
    · simp [h, ih, Ne.symm h]

theorem has_iff_mem_names : ms.has name = true ↔ name ∈ names ms := by
  simp [has, names]

theorem mem_names_of_mem {m : String × α} (h : m ∈ ms) : m.1 ∈ names ms :=
  List.mem_map_of_mem h

theorem mem_put {m : String × α} (h : m ∈ ms.put name value) : m = (name, value) ∨ m ∈ ms := by
  induction ms with
  | nil => simpa [put] using h
  | cons m' rest ih =>
    rw [put] at h
    split at h
    · rcases List.mem_cons.1 h with h | h
      · exact .inl h
      · exact .inr (List.mem_cons_of_mem _ h)
    · rcases List.mem_cons.1 h with h | h
      · exact .inr (h ▸ List.mem_cons_self ..)
      · exact (ih h).imp_right (List.mem_cons_of_mem _)

theorem names_put (ms : Members α) (name : String) (value : α) :
    names (ms.put name value) = if name ∈ names ms then names ms else names ms ++ [name] := by
  induction ms with
  | nil => simp [put, names]
  | cons m rest ih =>
    by_cases h : m.1 = name
    · simp [put, names, h]
    · simp only [put, h, if_false, names, List.map_cons] at ih ⊢
      rw [ih]
      by_cases hr : name ∈ rest.map (·.1) <;> simp [hr, Ne.symm h]

theorem put_of_new (h : name ∉ names ms) (value : α) :
    ms.put name value = ms ++ [(name, value)] := by
  induction ms with
  | nil => rfl
  | cons m rest ih =>
    obtain ⟨other, new⟩ := List.ne_and_not_mem_of_not_mem_cons h
    rw [put, if_neg other.symm, ih new]
    rfl

theorem put_append_of_new (h : name ∉ names ms) (value new : α) (further : Members α) :
    put (ms ++ (name, value) :: further) name new = ms ++ (name, new) :: further := by
  induction ms with
  | nil => simp [put]
  | cons m rest ih =>
    obtain ⟨other, fresh⟩ := List.ne_and_not_mem_of_not_mem_cons h
    rw [List.cons_append, put, if_neg other.symm, ih fresh]
    rfl

theorem put_put (ms : Members α) (name : String) (value new : α) :
    (ms.put name value).put name new = ms.put name new := by
  induction ms with
  | nil => simp [put]
  | cons m rest ih =>
    by_cases h : m.1 = name
    · simp [put, h]
    · simp only [put, h, if_false, ih]

theorem map_put (ms : Members α) (f : α → β) (name : String) (value : α) :
    (ms.put name value).map (fun m => (m.1, f m.2)) =
      put (ms.map fun m => (m.1, f m.2)) name (f value) := by
  induction ms with
  | nil => rfl
  | cons m rest ih =>
    rw [List.map_cons, put, put]
    split
    · rfl
    · rw [List.map_cons, ih]

theorem erase_of_new (h : name ∉ names ms) : ms.erase name = ms := by
  rw [erase, List.filter_eq_self]
  intro m hm
  simpa using ne_of_mem_of_not_mem (mem_names_of_mem hm) h

/-- The place of a name: what is put under it and what is left without it agree before and behind
that place. -/
theorem around (hn : (names ms).Nodup) (name : String) :
    ∃ before behind, ms.erase name = before ++ behind ∧
      (∀ value, ms.put name value = before ++ (name, value) :: behind) ∧
      ms = before ++ ((ms.get? name).map (Prod.mk name)).toList ++ behind := by
  cases held : ms.get? name with
  | none =>
    have new := get?_eq_none_iff.1 held
    exact ⟨ms, [], by simp [erase_of_new new], put_of_new new, by simp⟩
  | some value =>
    obtain ⟨before, behind, rfl⟩ := List.append_of_mem (mem_of_get? held)
    rw [names, List.map_append, List.map_cons, List.nodup_middle, List.nodup_cons,
      List.mem_append, not_or] at hn
    obtain ⟨⟨left, right⟩, -⟩ := hn
    refine ⟨before, behind, ?_, fun new => put_append_of_new left value new behind, by simp⟩
    rw [erase, List.filter_append, List.filter_cons_of_neg (by simp), ← erase, ← erase,
      erase_of_new left, erase_of_new right]

/-- Of members before and behind, only those behind remain when the names of the others are left
out. -/
theorem filter_append_of_names {further : Members α} {left : List String}
    (before : ∀ m ∈ ms, m.1 ∈ left) (behind : ∀ m ∈ further, m.1 ∉ left) :
    (ms ++ further).filter (fun m => decide (m.1 ∉ left)) = further := by
  have gone : ms.filter (fun m => decide (m.1 ∉ left)) = [] := by
    rw [List.filter_eq_nil_iff]
    intro m hm
    simpa using before m hm
  have kept : further.filter (fun m => decide (m.1 ∉ left)) = further := by
    rw [List.filter_eq_self]
    intro m hm
    simpa using behind m hm
  rw [List.filter_append, gone, kept, List.nil_append]

theorem nodup_put (hn : (names ms).Nodup) (name : String) (value : α) :
    (names (ms.put name value)).Nodup := by
  rw [names_put]
  split
  · exact hn
  · next h =>
    refine List.nodup_append.2 ⟨hn, by simp, ?_⟩
    intro a ha b hb
    rw [List.mem_singleton.1 hb]
    exact ne_of_mem_of_not_mem ha h

theorem nodup_erase (hn : (names ms).Nodup) (name : String) : (names (ms.erase name)).Nodup :=
  hn.sublist (List.filter_sublist.map _)

theorem nodup_eraseDups (l : List String) : l.eraseDups.Nodup := by
  match l with
  | [] => simp
  | a :: rest =>
    rw [List.eraseDups_cons, List.nodup_cons]
    constructor
    · simp [List.mem_eraseDups]
    · exact nodup_eraseDups _
termination_by l.length
decreasing_by exact Nat.lt_succ_of_le (List.length_filter_le ..)

theorem eraseDups_of_nodup {l : List String} (h : l.Nodup) : l.eraseDups = l := by
  induction l with
  | nil => rfl
  | cons a rest ih =>
    obtain ⟨new, rest_nodup⟩ := List.nodup_cons.1 h
    have others : rest.filter (fun b => !b == a) = rest := by
      rw [List.filter_eq_self]
      intro b hb
      simpa using ne_of_mem_of_not_mem hb new
    rw [List.eraseDups_cons, others, ih rest_nodup]

end EntityRules.Members
