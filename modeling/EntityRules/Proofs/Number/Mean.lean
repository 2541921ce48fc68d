import EntityRules.Proofs.Number.Weighted

/-! Products and averages of shares. -/

namespace EntityRules.Binary64

variable {x y : Float} {xs : List Float}

theorem mul_le_left (hx : IsShare x) (hy : IsShare y) : x * y ≤ x := by
  obtain ⟨number, size⟩ := count_mul hx.isFinite hy.isFinite
  have least := (nonneg_iff.mp hx.nonneg).2
  have most := (le_iff_count (isNaN_of_le hy.le_one).1 (by decide)).mp hy.le_one
  rw [count_one] at most
  rw [le_iff_count number (isNaN_of_le hx.le_one).1, size]
  calc roundedQuotient (count x * count y) oneUnits
      ≤ roundedQuotient (count x * oneUnits) oneUnits :=
        roundedQuotient_mono oneUnits_pos (Int.mul_le_mul_of_nonneg_left most least)
    _ = count x := by rw [roundedQuotient_mul oneUnits_pos, rounded_count_of_nonneg hx.nonneg]

theorem mul_le_right (hx : IsShare x) (hy : IsShare y) : x * y ≤ y := by
  obtain ⟨number, size⟩ := count_mul hx.isFinite hy.isFinite
  obtain ⟨number', size'⟩ := count_mul hy.isFinite hx.isFinite
  have turned : x * y ≤ y * x := by
    rw [le_iff_count number number', size, size', mul_comm]
  exact le_trans_of_le turned (mul_le_left hy hx)

theorem IsShare.mul (hx : IsShare x) (hy : IsShare y) : IsShare (x * y) :=
  ⟨mul_nonneg hx.isFinite hx.nonneg hy, le_trans_of_le (mul_le_left hx hy) hx.le_one⟩

/-- A product of shares is a share and no greater than where it starts or any of its factors. -/
theorem foldl_mul (hx : IsShare x) (h : ∀ y ∈ xs, IsShare y) :
    IsShare (xs.foldl (· * ·) x) ∧ xs.foldl (· * ·) x ≤ x ∧ ∀ y ∈ xs, xs.foldl (· * ·) x ≤ y := by
  induction xs generalizing x with
  | nil => exact ⟨hx, le_self hx.nonneg, nofun⟩
  | cons y ys ih =>
    obtain ⟨hy, h⟩ := List.forall_mem_cons.mp h
    obtain ⟨share, start, factors⟩ := ih (hx.mul hy) h
    exact ⟨share, le_trans_of_le start (mul_le_left hx hy),
      List.forall_mem_cons.mpr ⟨le_trans_of_le start (mul_le_right hx hy), factors⟩⟩

/-- Shares sum to no more than as many ones. -/
theorem foldl_add_le (hx : 0 ≤ x) (h : x ≤ y) (shares : ∀ z ∈ xs, IsShare z) :
    xs.foldl (· + ·) x ≤ (List.replicate xs.length (1 : Float)).foldl (· + ·) y := by
  induction xs generalizing x y with
  | nil => exact h
  | cons z zs ih =>
    obtain ⟨hz, shares⟩ := List.forall_mem_cons.mp shares
    exact ih (add_nonneg hx hz.nonneg) (add_le_add hx hz.nonneg h hz.le_one) shares

theorem sum_nonneg (shares : ∀ z ∈ xs, IsShare z) : 0 ≤ Scalar.sum xs :=
  (le_foldl_add (by decide) fun z hz => (shares z hz).nonneg).1

theorem mean_isShare (filled : xs ≠ []) (shares : ∀ z ∈ xs, IsShare z) :
    IsShare (Scalar.sum xs / Scalar.count xs.length) := by
  obtain ⟨finite, -, -⟩ := scalarCount_spec xs.length
  have pos := scalarCount_pos (List.length_pos_of_ne_nil filled)
  have most : Scalar.sum xs ≤ Scalar.count xs.length :=
    foldl_add_le (by decide) (by decide) shares
  exact ⟨div_nonneg (sum_nonneg shares) finite pos, div_le_one most finite pos⟩

theorem half_isShare (hx : IsShare x) (hy : IsShare y) : IsShare (Scalar.half (x + y)) := by
  have finite : (1 + 1 : Float).isFinite = true := by decide
  have pos : 0 < count (1 + 1) := by
    have above : (0 : Float) < 1 + 1 := by decide
    rwa [lt_iff_count (by decide) (by decide), count_zero] at above
  exact ⟨div_nonneg (add_nonneg hx.nonneg hy.nonneg) finite pos,
    div_le_one (add_le_add hx.nonneg hy.nonneg hx.le_one hy.le_one) finite pos⟩

theorem min_one_isShare (h : 0 ≤ x) : IsShare (Scalar.min x 1) := by
  obtain ⟨number, least⟩ := nonneg_iff.mp h
  obtain ⟨number', size⟩ := @count_min x 1 number (by decide)
  refine ⟨nonneg_iff.mpr ⟨number', ?_⟩, (le_iff_count number' (by decide)).mpr ?_⟩
  · rw [size]
    exact le_min least (by decide)
  · rw [size]
    exact min_le_right _ _

end EntityRules.Binary64
