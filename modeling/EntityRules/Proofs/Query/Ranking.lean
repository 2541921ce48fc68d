import EntityRules.Proofs.Except
import EntityRules.Proofs.Number.Order
import EntityRules.Query.Pipeline

/-! Sorting results from the greatest key down, with ties in their order. -/

namespace EntityRules

open Binary64

/-- An arrangement of a list from the greatest key down. Items of which the first is not less keep
their order. -/
structure StablyDescends {α : Type} (key : α → Float) (xs ys : List α) : Prop where
  perm : ys.Perm xs
  sorted : ys.Pairwise fun a b => ¬ key a < key b
  stable : ∀ a b, [a, b].Sublist xs → ¬ key a < key b → [a, b].Sublist ys

/-- What a strategy sorts by. -/
def SortStrategy.key : SortStrategy → QueryRules.Scored → Float
  | .relevance => (·.2)
  | .priority => (·.1.priority)
  | .timestamp => fun x => QueryRules.timeKey x.1

namespace QueryRules

theorem isNaN_timeKey (e : EntityRecord Float) : (timeKey e).isNaN = false := by
  unfold timeKey
  split
  · exact Moment.isNaN_seconds _
  · decide

theorem isNaN_score {rules : ScoringRules Float} {filter : QueryFilter} {state : GameState}
    {e : EntityRecord Float} {s : Float} (h : rules.score filter state e = .ok s) :
    s.isNaN = false := by
  simp only [ScoringRules.score, bind_eq_ok] at h
  obtain ⟨priority, -, level, -, h⟩ := h
  cases h
  exact isNaN_clamp _

/-- Where the order of a key puts two items: the first stays in front unless its key is less. -/
def keepsFront {α : Type} (key : α → Float) (a b : α) : Bool :=
  decide (Binary64.rank (key b) ≤ Binary64.rank (key a))

theorem keepsFront_trans {α : Type} (key : α → Float) (a b c : α)
    (h₁ : keepsFront key a b = true) (h₂ : keepsFront key b c = true) :
    keepsFront key a c = true := by
  simp only [keepsFront, decide_eq_true_eq] at h₁ h₂ ⊢
  exact le_trans h₂ h₁

theorem keepsFront_total {α : Type} (key : α → Float) (a b : α) :
    (keepsFront key a b || keepsFront key b a) = true := by
  simp only [keepsFront, Bool.or_eq_true, decide_eq_true_eq]
  exact le_total _ _

variable {key : Scored → Float} {xs : List Scored}

theorem not_lt_iff_keepsFront {a b : Scored} (ha : (key a).isNaN = false)
    (hb : (key b).isNaN = false) : ¬ key a < key b ↔ keepsFront key a b = true := by
  rw [lt_iff_rank ha hb, not_lt, keepsFront, decide_eq_true_eq]

/-- Among keys that are numbers, sorting is by their ranks. -/
theorem descending_eq (h : ∀ x ∈ xs, (key x).isNaN = false) :
    descending key xs = xs.mergeSort (keepsFront key) := by
  have numbers : (xs.any fun x => (key x).isNaN) = false := by
    simpa [List.any_eq_false] using h
  rw [descending, numbers, if_neg Bool.false_ne_true]
  have same : ∀ a ∈ xs, ∀ b ∈ xs, (!decide (key a < key b)) = keepsFront key a b := by
    intro a ha b hb
    rw [Bool.eq_iff_iff, ← not_lt_iff_keepsFront (h a ha) (h b hb)]
    simp
  simpa using List.map_mergeSort (f := id) same

/-- Sorting by keys that are numbers is stable. -/
theorem descending_stable (h : ∀ x ∈ xs, (key x).isNaN = false) :
    StablyDescends key xs (descending key xs) := by
  have trans := keepsFront_trans key
  have total := keepsFront_total key
  rw [descending_eq h]
  constructor
  · exact List.mergeSort_perm xs _
  · refine (List.pairwise_mergeSort trans total xs).imp_of_mem ?_
    intro a b ha hb hab
    exact (not_lt_iff_keepsFront (h a (List.mem_mergeSort.mp ha))
      (h b (List.mem_mergeSort.mp hb))).mpr hab
  · intro a b hsub hab
    have ha : a ∈ xs := hsub.subset (by simp)
    have hb : b ∈ xs := hsub.subset (by simp)
    exact List.pair_sublist_mergeSort trans total
      ((not_lt_iff_keepsFront (h a ha) (h b hb)).mp hab) hsub

/-- Sorting only reorders, whatever the keys are. -/
theorem sortBy_perm (name : String) (xs : List Scored) : (sortBy name xs).Perm xs := by
  have each : ∀ key : Scored → Float, (descending key xs).Perm xs := by
    intro key
    unfold descending
    split
    · exact Order.sortDown_perm _ xs
    · exact List.mergeSort_perm xs _
  unfold sortBy
  split
  · exact each _
  · exact each _
  · exact each _
  · exact .refl xs

/-- Sorting by a strategy is stable when the items are scored and no priority that counts is a
non-number. -/
theorem sortBy_stable {name : String} {strategy : SortStrategy}
    (known : Vocabulary.ofName? name = some strategy)
    (scored : ∀ x ∈ xs, x.2.isNaN = false)
    (numbers : strategy = .priority → ∀ x ∈ xs, x.1.priority.isNaN = false) :
    StablyDescends strategy.key xs (sortBy name xs) := by
  rw [sortBy, known]
  cases strategy with
  | relevance => exact descending_stable scored
  | priority => exact descending_stable (numbers rfl)
  | timestamp => exact descending_stable fun x _ => isNaN_timeKey x.1

end QueryRules

end EntityRules
