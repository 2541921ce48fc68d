import EntityRules.Entity.Catalog
import EntityRules.Proofs.Members

/-! Catalogs whose records are kept in memory, as adding and removing them leaves them. -/

namespace EntityRules.EntityCatalog

open Members

variable {c : EntityCatalog}

/-- The catalogs that come from an empty one by adding and removing records. -/
inductive InMemory : EntityCatalog → Prop
  | empty : InMemory {}
  | add {c : EntityCatalog} (h : InMemory c) (e : EntityRecord Float) : InMemory (c.add e)
  | remove {c : EntityCatalog} (h : InMemory c) (id : String) : InMemory (c.remove id).2

/-- The records of a catalog, in order. -/
def all (c : EntityCatalog) : List (EntityRecord Float) := c.records.map (·.2)

theorem inMemory_ofList (es : List (EntityRecord Float)) : InMemory (ofList es) := by
  have h : ∀ c, InMemory c → InMemory (es.foldl add c) := by
    induction es with
    | nil => exact fun c hc => hc
    | cons e rest ih => exact fun c hc => ih _ (hc.add e)
  exact h {} .empty

theorem InMemory.plain (h : InMemory c) : c.failure = none ∧ c.discoveries = [] := by
  induction h with
  | empty => exact ⟨rfl, rfl⟩
  | add _ e ih => exact ih
  | remove _ id ih =>
    unfold EntityCatalog.remove
    split
    · exact ih
    · exact ih

/-- Identifiers are distinct, and every record stands under its own. -/
theorem InMemory.keyed (h : InMemory c) :
    (names c.records).Nodup ∧ ∀ m ∈ c.records, m.2.id = m.1 := by
  induction h with
  | empty => simp [names]
  | @add c _ e ih =>
    obtain ⟨distinct, own⟩ := ih
    refine ⟨nodup_put distinct e.id e, ?_⟩
    intro m hm
    rcases mem_put hm with hm | hm
    · rw [hm]
    · exact own m hm
  | @remove c _ id ih =>
    obtain ⟨distinct, own⟩ := ih
    unfold EntityCatalog.remove
    split
    · exact ⟨nodup_erase distinct id, fun m hm => own m (List.mem_of_mem_filter hm)⟩
    · exact ⟨distinct, own⟩

theorem InMemory.nodup_ids (h : InMemory c) : (c.all.map (·.id)).Nodup := by
  obtain ⟨distinct, own⟩ := h.keyed
  have same : c.all.map (·.id) = names c.records := by
    rw [all, List.map_map]
    exact List.map_congr_left own
  exact same ▸ distinct

theorem InMemory.get?_eq_some (h : InMemory c) {id : String} {e : EntityRecord Float} :
    c.get? id = some e ↔ e ∈ c.all ∧ e.id = id := by
  obtain ⟨distinct, own⟩ := h.keyed
  constructor
  · intro he
    have hm := mem_of_get? he
    exact ⟨List.mem_map.mpr ⟨_, hm, rfl⟩, own _ hm⟩
  · rintro ⟨he, rfl⟩
    obtain ⟨m, hm, rfl⟩ := List.mem_map.mp he
    apply get?_of_mem distinct
    rw [own m hm]
    exact hm

/-- Removing leaves the catalog as it is, or it tells the listeners. -/
theorem remove_cases (c : EntityCatalog) (id : String) :
    (c.remove id).2 = c ∨ (c.remove id).2.revision = c.revision + 1 := by
  unfold EntityCatalog.remove
  split
  · exact .inr rfl
  · exact .inl rfl

end EntityRules.EntityCatalog
