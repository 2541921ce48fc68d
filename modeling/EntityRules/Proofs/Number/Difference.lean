import EntityRules.Proofs.Number.Text
import EntityRules.Proofs.Number.Weighted

/-! Differences of doubles and their amounts. -/

namespace EntityRules.Binary64

open Float.Model Float.Model.UnpackedFloat

variable {x y : Float} {xs : List Float}

theorem neg_apply (s : Sign) (z : ℤ) : (-s).apply z = -s.apply z := by
  cases s with
  | negative => exact (Int.neg_neg z).symm
  | positive => rfl

theorem units_neg (a : UnpackedFloat) : units a.neg = -units a := by
  cases a with
  | infinity s => exact neg_apply s _
  | notANumber => rfl
  | zero s => rfl
  | finite s m e hm => exact neg_apply s _

theorem isCanonical_neg {a : UnpackedFloat} (h : IsCanonical a) : IsCanonical a.neg := by
  cases a with
  | finite s m e hm => exact h
  | _ => exact trivial

theorem isNaN_neg (a : UnpackedFloat) : a.neg.isNaN = a.isNaN := by cases a <;> rfl

theorem isFinite_neg (a : UnpackedFloat) : a.neg.isFinite = a.isFinite := by cases a <;> rfl

/-- The opposite of a double is added in its place. -/
theorem sub_eq_add_neg_unpacked (a b : UnpackedFloat) :
    UnpackedFloat.sub Format.binary64 a b = UnpackedFloat.add Format.binary64 a b.neg := by
  rcases a with (_ | _) | _ | (_ | _) | ⟨s, m, e, hm⟩ <;>
    rcases b with (_ | _) | _ | (_ | _) | ⟨t, n, d, hn⟩ <;> try rfl
  -- Only of two finite numbers is there anything to add.
  change normalize Format.binary64 (s.apply _ - t.apply _) _ _ =
    normalize Format.binary64 (s.apply _ + (-t).apply _) _ _
  rw [neg_apply, Int.sub_eq_add_neg]

theorem unpack_sub (x y : Float) : (x - y).toModel.unpack =
    UnpackedFloat.unpack Format.binary64 (UnpackedFloat.pack Format.binary64
      (UnpackedFloat.add Format.binary64 x.toModel.unpack y.toModel.unpack.neg)) := by
  rw [← sub_eq_add_neg_unpacked]
  rfl

theorem count_sub (hx : x.isFinite = true) (hy : y.isFinite = true) :
    count (x - y) = rounded (count x - count y) := by
  have opposite : y.toModel.unpack.neg.isFinite = true := (isFinite_neg _).trans hy
  calc count (x - y) = rounded (count x + units y.toModel.unpack.neg) := by
        rw [count, unpack_sub]
        exact units_add (isCanonical_unpack _) (isCanonical_neg (isCanonical_unpack _)) hx opposite
    _ = rounded (count x - count y) := by rw [units_neg]; rfl

theorem unpack_notANumber : (UnpackedFloat.unpack Format.binary64
    (UnpackedFloat.pack Format.binary64 .notANumber)).isNaN = true := by
  decide

/-- Taking a finite number from another double leaves a number just if that one is a number. -/
theorem isNaN_sub (hy : y.isFinite = true) : (x - y).isNaN = x.isNaN := by
  have opposite : y.toModel.unpack.neg.isFinite = true := (isFinite_neg _).trans hy
  change (x - y).toModel.unpack.isNaN = x.toModel.unpack.isNaN
  rw [unpack_sub]
  cases hx : x.isFinite with
  | true =>
    have number : (x.toModel.unpack).isNaN = false := isNaN_of_isFinite hx
    rw [number]
    exact isNaN_unpack_pack (isNaN_add_unpacked (isCanonical_unpack _)
      (isCanonical_neg (isCanonical_unpack _)) hx ((isNaN_neg _).trans (isNaN_of_isFinite hy)))
  | false =>
    change x.toModel.unpack.isFinite = false at hx
    cases hu : x.toModel.unpack with
    | infinity s =>
      rw [infinity_add opposite]
      exact isNaN_unpack_pack rfl
    | notANumber =>
      have none : UnpackedFloat.add Format.binary64 .notANumber y.toModel.unpack.neg =
          .notANumber := by
        cases y.toModel.unpack.neg <;> rfl
      rw [none]
      exact unpack_notANumber
    | _ => rw [hu] at hx; cases hx

theorem isNaN_abs (x : Float) : x.abs.isNaN = x.isNaN := by
  change (UnpackedFloat.unpack Format.binary64 (UnpackedFloat.pack Format.binary64
    x.toModel.unpack.abs)).isNaN = x.toModel.unpack.isNaN
  cases x.toModel.unpack with
  | notANumber => exact unpack_notANumber
  | _ => exact isNaN_unpack_pack rfl

theorem count_abs (x : Float) : count x.abs = |count x| := by
  have canonical := isCanonical_unpack x.toModel.toBits.toBitVec
  change IsCanonical x.toModel.unpack at canonical
  change units (UnpackedFloat.unpack Format.binary64 (UnpackedFloat.pack Format.binary64
    x.toModel.unpack.abs)) = |units x.toModel.unpack|
  have amount (s : Sign) (n : ℕ) : |s.apply (n : ℤ)| = n := by
    cases s with
    | negative => exact (abs_neg _).trans (Nat.abs_cast _)
    | positive => exact Nat.abs_cast _
  generalize x.toModel.unpack = u at canonical
  cases u with
  | infinity s =>
    rw [units_infinity, amount]
    exact congrArg units (unpack_packedInfinity .positive)
  | notANumber => decide
  | zero s => exact congrArg units (unpack_packedZero .positive)
  | finite s m e hm =>
    obtain ⟨k, rfl, less, fits⟩ := canonical
    rw [units_finite, amount]
    change units (UnpackedFloat.unpack _ (UnpackedFloat.pack _ (.finite .positive m _ hm))) = _
    rw [units_packed .positive fits, rounded_apply, fits.nearest_size,
      Nat.min_eq_left (fits.size_lt less).le]
    rfl

/-- A double that is not less than another one reaches it, unless one of the two is no number. -/
theorem not_lt_iff : ¬ x < y ↔ (x.isNaN = false → y.isNaN = false → y ≤ x) := by
  constructor
  · intro h hx hy
    rw [le_iff_count hy hx]
    rwa [lt_iff_count hx hy, not_lt] at h
  · intro h less
    obtain ⟨hx, hy⟩ := numbers_of_lt less
    have reached := h hx hy
    rw [le_iff_count hy hx] at reached
    rw [lt_iff_count hx hy] at less
    omega

theorem isNaN_add_of_isNaN (hx : x.isNaN = true) : (x + y).isNaN = true := by
  change x.toModel.unpack.isNaN = true at hx
  change (UnpackedFloat.unpack _ (UnpackedFloat.pack _
    (UnpackedFloat.add _ x.toModel.unpack y.toModel.unpack))).isNaN = true
  cases hu : x.toModel.unpack with
  | notANumber => exact unpack_notANumber
  | _ => rw [hu] at hx; cases hx

/-- A sum is a number only if all its parts are. -/
theorem numbers_of_foldl_add (h : (xs.foldl (· + ·) x).isNaN = false) :
    x.isNaN = false ∧ ∀ y ∈ xs, y.isNaN = false := by
  induction xs generalizing x with
  | nil => exact ⟨h, nofun⟩
  | cons y ys ih =>
    obtain ⟨start, others⟩ := ih h
    refine ⟨?_, List.forall_mem_cons.mpr ⟨isNaN_of_isNaN_add start, others⟩⟩
    by_contra none
    rw [Bool.not_eq_false] at none
    exact Bool.false_ne_true (start.symm.trans (isNaN_add_of_isNaN none))

/-- Sums whose starts count alike count alike. -/
theorem count_foldl_add_congr (hx : 0 ≤ x) (hy : 0 ≤ y) (same : count x = count y)
    (h : ∀ z ∈ xs, 0 ≤ z) : count (xs.foldl (· + ·) x) = count (xs.foldl (· + ·) y) := by
  induction xs generalizing x y with
  | nil => exact same
  | cons z zs ih =>
    obtain ⟨hz, h⟩ := List.forall_mem_cons.mp h
    refine ih (add_nonneg hx hz) (add_nonneg hy hz) ?_ h
    rw [(count_add_of_nonneg hx hz).2, (count_add_of_nonneg hy hz).2, same]

theorem isNaN_of_parts (h : parts x = .nan) : x.isNaN = true := by
  change (UnpackedFloat.unpack Format.binary64 x.toBits.toBitVec).isNaN = true
  rw [toBits_of_nan h]
  decide

theorem count_of_infinite {negative : Bool} (h : parts x = .infinite negative) :
    count x = (signOf negative).apply limit := by
  have word : x.toBits.toNat = infinityBits + if negative then 2 ^ 63 else 0 := by
    rw [toNat_of_infinite h]
    cases negative <;> rfl
  exact (units_word negative le_rfl word).trans (congrArg _ (congrArg _ wordUnits_infinityBits))

theorem compare_zero_mul {z c : ℤ} (hc : 0 < c) : compare 0 (z * c) = compare 0 z := by
  rcases Int.lt_trichotomy z 0 with below | rfl | above
  · rw [compare_gt_iff_gt.mpr below, compare_gt_iff_gt.mpr (Int.mul_neg_of_neg_of_pos below hc)]
  · rw [Int.zero_mul]
  · rw [compare_lt_iff_lt.mpr above, compare_lt_iff_lt.mpr (Int.mul_pos above hc)]

/-- Numbers are compared with zero by what they count as. -/
theorem compareInt_zero (hx : x.isNaN = false) : compareInt 0 x = some (compare 0 (count x)) := by
  have top := limit_pos
  unfold compareInt
  cases h : parts x with
  | nan => exact absurd (hx.symm.trans (isNaN_of_parts h)) Bool.false_ne_true
  | infinite negative =>
    rw [count_of_infinite h]
    cases negative with
    | false => exact congrArg some (compare_lt_iff_lt.mpr (Int.ofNat_lt.mpr top)).symm
    | true =>
      have below : (signOf true).apply limit < 0 := Int.neg_neg_of_pos (Int.ofNat_lt.mpr top)
      exact congrArg some (compare_gt_iff_gt.mpr below).symm
  | finite d =>
    have scale : 0 < ((d.fraction.2 : ℕ) : ℤ) := Int.ofNat_lt.mpr (Nat.two_pow_pos _)
    have unit : 0 < ((oneUnits : ℕ) : ℤ) := Int.ofNat_lt.mpr oneUnits_pos
    dsimp only
    rw [Int.zero_mul, ← compare_zero_mul unit, ← count_of_finite h, compare_zero_mul scale]

/-- Nothing compares with what is no number. -/
theorem compareInt_of_isNaN (hx : x.isNaN = true) (n : ℤ) : compareInt n x = none := by
  unfold compareInt
  cases h : parts x with
  | nan => rfl
  | infinite negative =>
    have top := limit_pos
    have none : count x = 0 := by
      change x.toModel.unpack.isNaN = true at hx
      unfold count
      cases hu : x.toModel.unpack with
      | notANumber => rfl
      | _ => rw [hu] at hx; cases hx
    rw [count_of_infinite h] at none
    have size : (limit : ℤ) = 0 := by
      cases negative with
      | false => exact none
      | true => exact Int.neg_eq_zero.mp none
    exact absurd (Int.ofNat_eq_zero.mp size) top.ne'
  | finite d =>
    have finite := isFinite_iff_parts.mpr ⟨d, h⟩
    exact absurd ((isNaN_of_isFinite finite).symm.trans hx) Bool.false_ne_true

end EntityRules.Binary64
