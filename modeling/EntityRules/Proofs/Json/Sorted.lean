import EntityRules.Json.Canonical
import Mathlib.Data.List.Nodup

/-! Members sorted by name. -/

namespace EntityRules.Json

open Members

variable {α β : Type}

/-- Sorting by name does not look at the values. -/
theorem insertSorted_map (f : α → β) (m : String × α) (ms : Members α) :
    insertSorted (m.1, f m.2) (ms.map fun m => (m.1, f m.2)) =
      (insertSorted m ms).map fun m => (m.1, f m.2) := by
  induction ms with
  | nil => rfl
  | cons other rest ih =>
    simp only [List.map_cons, insertSorted, ih]
    split <;> rfl

theorem sorted_map (f : α → β) (ms : Members α) :
    sorted (ms.map fun m => (m.1, f m.2)) = (sorted ms).map fun m => (m.1, f m.2) := by
  induction ms with
  | nil => rfl
  | cons m rest ih => rw [List.map_cons, sorted, ih, insertSorted_map, sorted]

theorem insertSorted_perm (m : String × α) (ms : Members α) : (insertSorted m ms).Perm (m :: ms) := by
  induction ms with
  | nil => exact .refl _
  | cons other rest ih =>
    rw [insertSorted]
    split
    · exact .refl _
    · exact (ih.cons other).trans (.swap m other rest)

theorem sorted_perm (ms : Members α) : (sorted ms).Perm ms := by
  induction ms with
  | nil => exact .refl _
  | cons m rest ih => exact (insertSorted_perm m _).trans (ih.cons m)

theorem pairwise_insertSorted {m : String × α} {ms : Members α}
    (h : ms.Pairwise fun a b => a.1 ≤ b.1) : (insertSorted m ms).Pairwise fun a b => a.1 ≤ b.1 := by
  induction ms with
  | nil => exact List.pairwise_singleton _ _
  | cons other rest ih =>
    obtain ⟨least, rest_sorted⟩ := List.pairwise_cons.mp h
    rw [insertSorted]
    split
    · next first =>
      refine List.pairwise_cons.mpr ⟨List.forall_mem_cons.mpr ⟨first, fun b hb => ?_⟩, h⟩
      exact String.le_trans first (least b hb)
    · next later =>
      refine List.pairwise_cons.mpr ⟨fun b hb => ?_, ih rest_sorted⟩
      rcases List.mem_cons.mp ((insertSorted_perm m rest).mem_iff.mp hb) with rfl | hb
      · exact (String.le_total _ _).resolve_left later
      · exact least b hb

theorem pairwise_sorted (ms : Members α) : (sorted ms).Pairwise fun a b => a.1 ≤ b.1 := by
  induction ms with
  | nil => exact .nil
  | cons m rest ih => exact pairwise_insertSorted ih

/-- Sorting forgets the order of members, unless two of them have one name. -/
theorem sorted_eq_of_perm {ms ms' : Members α} (h : ms.Perm ms') (names : (Members.names ms).Nodup) :
    sorted ms = sorted ms' := by
  refine List.Perm.eq_of_pairwise ?_ (pairwise_sorted ms) (pairwise_sorted ms')
    ((sorted_perm ms).trans (h.trans (sorted_perm ms').symm))
  intro a b ha hb ab ba
  have same : a.1 = b.1 := String.le_antisymm ab ba
  exact List.inj_on_of_nodup_map names ((sorted_perm ms).mem_iff.mp ha)
    (h.mem_iff.mpr ((sorted_perm ms').mem_iff.mp hb)) same

/-- A member stays before those of its name. -/
theorem filter_insertSorted (m : String × α) (ms : Members α) (name : String) :
    (insertSorted m ms).filter (·.1 = name) = (m :: ms).filter (·.1 = name) := by
  induction ms with
  | nil => rfl
  | cons other rest ih =>
    rw [insertSorted]
    split
    · rfl
    · next later =>
      have apart : ¬ (m.1 = name ∧ other.1 = name) := fun same =>
        later (same.1.trans same.2.symm ▸ String.le_refl _)
      simp only [List.filter_cons] at ih ⊢
      rw [ih]
      grind

/-- Sorting leaves the members of one name in their order. -/
theorem filter_sorted (ms : Members α) (name : String) :
    (sorted ms).filter (·.1 = name) = ms.filter (·.1 = name) := by
  induction ms with
  | nil => rfl
  | cons m rest ih => rw [sorted, filter_insertSorted, List.filter_cons, ih, List.filter_cons]

end EntityRules.Json
