import EntityRules.Cache
import EntityRules.Proofs.Except

/-! What a cache holds after it was used: what it held before, and what was stored. -/

namespace EntityRules.ResultCache

variable {κ ν τ : Type} {c : ResultCache κ ν τ}

theorem entries_create {name : String} {capacity : Extent Float} {ttl : Option (Extent τ)}
    (h : create name capacity ttl = .ok c) : c.entries = [] := by
  unfold create at h
  split at h
  · cases h
  · split at h
    · cases h
      rfl
    · cases h

variable [DecidableEq κ] {key : κ} {now : τ}

theorem mem_of_find? {e : CacheEntry κ ν τ} (h : c.find? key = some e) :
    e ∈ c.entries ∧ e.key = key :=
  ⟨List.mem_of_find?_eq_some h, by simpa using List.find?_some h⟩

variable [Scalar τ]

/-- What is found was held under its key. -/
theorem mem_of_get {value : ν} (h : (c.get key now).1 = some value) :
    ∃ e ∈ c.entries, e.key = key ∧ e.value = value := by
  unfold get at h
  split at h
  · cases h
  · next e found =>
    dsimp only at h
    split at h
    · cases h
    · cases h
      obtain ⟨held, own⟩ := mem_of_find? found
      exact ⟨e, held, own, rfl⟩

/-- Looking up brings nothing new. -/
theorem mem_entries_get {e : CacheEntry κ ν τ} (h : e ∈ (c.get key now).2.entries) :
    e ∈ c.entries := by
  unfold get at h
  split at h
  · exact h
  · next found held =>
    dsimp only at h
    split at h
    · exact (List.mem_filter.mp h).1
    · rcases List.mem_append.mp h with h | h
      · exact (List.mem_filter.mp h).1
      · obtain rfl := List.mem_singleton.mp h
        exact List.mem_of_find?_eq_some held

theorem room_get : (c.get key now).2.room = c.room := by
  unfold get
  split
  · rfl
  · dsimp only
    split <;> rfl

theorem ttl_get : (c.get key now).2.ttl = c.ttl := by
  unfold get
  split
  · rfl
  · dsimp only
    split <;> rfl

/-- Storing replaces what was held under the key, and drops other entries at most. -/
theorem mem_entries_store {e : CacheEntry κ ν τ} {value : ν} {expiry : Option τ}
    (h : e ∈ (c.store key value expiry now).entries) :
    e ∈ c.entries ∧ e.key ≠ key ∨ e = ⟨key, value, expiry⟩ := by
  rcases List.mem_append.mp (List.mem_of_mem_drop h) with h | h
  · obtain ⟨held, other⟩ := List.mem_filter.mp h
    exact .inl ⟨(List.mem_filter.mp held).1, by simpa using other⟩
  · exact .inr (List.mem_singleton.mp h)

/-- Storing brings the value that is stored, and nothing else. -/
theorem mem_entries_set {e : CacheEntry κ ν τ} {value : ν} {c' : ResultCache κ ν τ}
    (hs : c.set key value now = .ok c') (h : e ∈ c'.entries) :
    e ∈ c.entries ∨ e.key = key ∧ e.value = value := by
  obtain ⟨expiry, -, rfl⟩ := map_eq_ok.mp hs
  rcases mem_entries_store h with ⟨held, -⟩ | rfl
  · exact .inl held
  · exact .inr ⟨rfl, rfl⟩

/-- A cache without a lifetime keeps what it is given for good. -/
theorem set_of_forever (h : c.ttl = none) (value : ν) :
    c.set key value now = .ok (c.store key value none now) := by
  rw [set, expiry, h]
  rfl

/-- What is stored for good is found at all times. -/
theorem get_store (hc : 0 < c.room) (value : ν) (later : τ) :
    ((c.store key value none now).get key later).1 = some value := by
  obtain ⟨e, found, rfl⟩ := Option.map_eq_some_iff.mp (find?_store c key value none now hc)
  obtain ⟨held, own⟩ := mem_of_find? found
  have stays : e.isExpired later = false := by
    rcases mem_entries_store held with ⟨-, other⟩ | shape
    · exact absurd own other
    · rw [shape]
      rfl
  unfold get
  rw [found]
  dsimp only
  rw [stays]
  rfl

end EntityRules.ResultCache
