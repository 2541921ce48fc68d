import EntityRules.Proofs.Number.Fraction

/-! Products and quotients of doubles are the exact ones, rounded to the nearest double. -/

namespace EntityRules.Binary64

open Float.Model Float.Model.UnpackedFloat

variable {m n k l : ℕ}

theorem apply_mul_apply (s t : Sign) (m n : ℕ) :
    s.apply (m : ℤ) * t.apply (n : ℤ) = (s * t).apply (m * n : ℕ) := by
  rw [Nat.cast_mul]
  cases s with
  | negative =>
    cases t with
    | negative => exact neg_mul_neg _ _
    | positive => exact neg_mul _ _
  | positive =>
    cases t with
    | negative => exact mul_neg _ _
    | positive => rfl

theorem roundedQuotient_zero {den : ℕ} (hden : 0 < den) : roundedQuotient 0 den = 0 := by
  rw [roundedQuotient_of_nonneg le_rfl, Int.natAbs_zero, nearestFraction_zero hden, Nat.zero_min]
  rfl

/-- What has a size counts as the quotient that was rounded to it. -/
theorem HasSize.units_quotient {s : Sign} {num den : ℕ} {u : UnpackedFloat} (hden : 0 < den)
    (h : HasSize s (nearestFraction num den) u) :
    Binary64.units (UnpackedFloat.unpack Format.binary64 (UnpackedFloat.pack Format.binary64 u)) =
      roundedQuotient (s.apply num) den := by
  rw [h.units, roundedQuotient_apply hden]

/-- The sizes of two doubles make a mantissa with all its bits, or one the last bit of which counts
for less than a unit. -/
theorem mul_finite (s t : Sign) (hm : Fits m k) (hn : Fits n l) :
    HasSize (s * t) (nearestFraction (m * 2 ^ k * (n * 2 ^ l)) oneUnits)
      (UnpackedFloat.mul Format.binary64 (.finite s m (k - 1074) hm.pos)
        (.finite t n (l - 1074) hn.pos)) := by
  have exponent : (k : ℤ) - 1074 + (l - 1074) = (k + l : ℕ) - (1074 : ℕ) - 1074 := by omega
  have enough : k + l ≤ 1074 ∨ 52 ≤ (m * n).log2 := by
    have some : m * n ≠ 0 := (Nat.mul_pos hm.pos hn.pos).ne'
    rcases Nat.eq_zero_or_pos k with zero | more
    · rcases Nat.eq_zero_or_pos l with zero' | more'
      · exact .inl (by omega)
      · exact .inr ((Nat.le_log2 some).mpr
          ((hn.normal more').trans (Nat.le_mul_of_pos_left n hm.pos)))
    · exact .inr ((Nat.le_log2 some).mpr
        ((hm.normal more).trans (Nat.le_mul_of_pos_right m hn.pos)))
  have size : m * 2 ^ k * (n * 2 ^ l) = m * n * 2 ^ (k + l) := by
    rw [Nat.pow_add, Nat.mul_mul_mul_comm]
  change HasSize _ _ (roundWithAccuracy Format.binary64 (s * t) (m * n) _ .exact)
  rw [size, exponent]
  exact roundWithAccuracy_exact (s * t) enough

theorem units_packedZero (s : Sign) :
    units (UnpackedFloat.unpack Format.binary64
      (UnpackedFloat.pack Format.binary64 (.zero s))) = 0 := by
  change units (UnpackedFloat.unpack _ (packedZero _ s)) = 0
  rw [unpack_packedZero]
  rfl

/-- The product of numbers is the rounded product of their units. -/
theorem units_mul {a b : UnpackedFloat} (ca : IsCanonical a) (cb : IsCanonical b)
    (fa : a.isFinite = true) (fb : b.isFinite = true) :
    units (UnpackedFloat.unpack Format.binary64 (UnpackedFloat.pack Format.binary64
      (UnpackedFloat.mul Format.binary64 a b))) = roundedQuotient (units a * units b) oneUnits := by
  cases a with
  | infinity s => cases fa
  | notANumber => cases fa
  | zero s =>
    rw [units_zero, zero_mul, roundedQuotient_zero oneUnits_pos]
    cases b with
    | infinity t => cases fb
    | notANumber => cases fb
    | zero t => exact units_packedZero (s * t)
    | finite t n f hn => exact units_packedZero (s * t)
  | finite s m e hm =>
    cases b with
    | infinity t => cases fb
    | notANumber => cases fb
    | zero t =>
      rw [units_zero, mul_zero, roundedQuotient_zero oneUnits_pos]
      exact units_packedZero (s * t)
    | finite t n f hn =>
      obtain ⟨k, rfl, -, fits⟩ := ca
      obtain ⟨l, rfl, -, fits'⟩ := cb
      rw [(mul_finite s t fits fits').units_quotient oneUnits_pos, units_finite, units_finite,
        apply_mul_apply]

theorem isNaN_mul_unpacked {a b : UnpackedFloat} (ca : IsCanonical a) (cb : IsCanonical b)
    (fa : a.isFinite = true) (fb : b.isFinite = true) :
    (UnpackedFloat.mul Format.binary64 a b).isNaN = false := by
  cases a with
  | infinity s => cases fa
  | notANumber => cases fa
  | zero s => cases b <;> first | rfl | cases fb
  | finite s m e hm =>
    cases b with
    | infinity t => cases fb
    | notANumber => cases fb
    | zero t => rfl
    | finite t n f hn =>
      obtain ⟨k, rfl, -, fits⟩ := ca
      obtain ⟨l, rfl, -, fits'⟩ := cb
      exact (mul_finite s t fits fits').isNaN

theorem div_positive (s : Sign) : s / Sign.positive = s := by
  cases s <;> rfl

/-- A quotient of sizes is taken with enough bits to round it. -/
theorem div_finite (s : Sign) (hm : Fits m k) (hn : Fits n l) :
    HasSize s (nearestFraction (m * 2 ^ k * oneUnits) (n * 2 ^ l))
      (UnpackedFloat.div Format.binary64 (.finite s m (k - 1074) hm.pos)
        (.finite .positive n (l - 1074) hn.pos)) := by
  -- The exponent of the quotient, as a difference of natural numbers, and the shift to it.
  obtain ⟨e, he⟩ : ∃ e : ℤ, min ((k : ℤ) - 1074 - (l - 1074)) (Format.binary64.targetExponent
    (totalExponent m (k - 1074) - totalExponent n (l - 1074))) = e := ⟨_, rfl⟩
  have least : e = min ((k : ℤ) - l) (max ((m.log2 : ℤ) + k - n.log2 - l - 53) (-1074)) := by
    rw [← he]
    change min ((k : ℤ) - 1074 - (l - 1074)) (max ((m.log2 : ℤ) + 1 + (k - 1074) -
      ((n.log2 : ℤ) + 1 + (l - 1074)) - 53) (-1074)) = _
    omega
  obtain ⟨j, c, hj⟩ : ∃ j c : ℕ, e = j - c - 1074 ∧ (j = 0 ∨ c = 0) :=
    ⟨(e + 1074).toNat, (-(e + 1074)).toNat, by omega, by omega⟩
  obtain ⟨i, hi⟩ : ∃ i : ℕ, ((k : ℤ) - 1074 - (l - 1074) - e).toNat = i := ⟨_, rfl⟩
  have enough : j ≤ c ∨ 52 ≤ (m * 2 ^ i / n).log2 := by
    by_cases low : e ≤ -1074
    · exact .inl (by omega)
    · have bits : n.log2 + 1 + 52 ≤ m.log2 + i := by omega
      have size : 2 ^ 52 * n ≤ m * 2 ^ i :=
        calc 2 ^ 52 * n ≤ 2 ^ 52 * 2 ^ (n.log2 + 1) := Nat.mul_le_mul_left _ Nat.lt_log2_self.le
          _ = 2 ^ (n.log2 + 1 + 52) := by rw [Nat.pow_add 2 (n.log2 + 1), Nat.mul_comm]
          _ ≤ 2 ^ (m.log2 + i) := Nat.pow_le_pow_right (by decide) bits
          _ = 2 ^ m.log2 * 2 ^ i := Nat.pow_add ..
          _ ≤ m * 2 ^ i := Nat.mul_le_mul_right _ (Nat.log2_self_le hm.pos.ne')
      have quotient := (Nat.le_div_iff_mul_le hn.pos).mpr size
      exact .inr ((Nat.le_log2 (by omega)).mpr quotient)
  have same : nearestFraction (m * 2 ^ i * 2 ^ j) (n * 2 ^ c) =
      nearestFraction (m * 2 ^ k * oneUnits) (n * 2 ^ l) := by
    have exponents : i + j + l = k + 1074 + c := by omega
    refine nearestFraction_congr (Nat.mul_pos hn.pos (Nat.two_pow_pos c)) hn.size_pos ?_
    calc m * 2 ^ i * 2 ^ j * (n * 2 ^ l) = m * n * 2 ^ (i + j + l) := by
          rw [Nat.pow_add, Nat.pow_add, Nat.mul_assoc m, Nat.mul_mul_mul_comm]
      _ = m * n * (2 ^ k * oneUnits * 2 ^ c) := by rw [exponents, Nat.pow_add, pow_add_oneUnits]
      _ = m * 2 ^ k * oneUnits * (n * 2 ^ c) := by
          rw [Nat.mul_mul_mul_comm, Nat.mul_assoc m (2 ^ k)]
  have divided : UnpackedFloat.div Format.binary64 (.finite s m (k - 1074) hm.pos)
      (.finite .positive n (l - 1074) hn.pos) =
        roundWithAccuracy Format.binary64 s (m * 2 ^ i / n) (j - c - 1074)
          (accuracyOfFraction (m * 2 ^ i % n) n) := by
    unfold UnpackedFloat.div divCore
    dsimp only
    rw [he, hi, Nat.shiftLeft_eq, div_positive, ← hj.1]
  rw [divided, ← same]
  exact roundWithAccuracy_hasSize s hn.pos enough

/-- The quotient of numbers by a positive one is the rounded quotient of their units. -/
theorem units_div {a b : UnpackedFloat} (ca : IsCanonical a) (cb : IsCanonical b)
    (fa : a.isFinite = true) (fb : b.isFinite = true) (pos : 0 < units b) :
    (UnpackedFloat.div Format.binary64 a b).isNaN = false ∧
      units (UnpackedFloat.unpack Format.binary64 (UnpackedFloat.pack Format.binary64
        (UnpackedFloat.div Format.binary64 a b))) =
          roundedQuotient (units a * oneUnits) (units b).toNat := by
  cases b with
  | infinity t => cases fb
  | notANumber => cases fb
  | zero t => cases pos
  | finite t n f hn =>
    obtain ⟨l, rfl, -, fits'⟩ := cb
    rw [units_finite] at pos ⊢
    cases t with
    | negative =>
      have := fits'.size_pos
      simp only [Sign.apply] at pos
      omega
    | positive =>
      have den : (Sign.positive.apply (n * 2 ^ l : ℕ)).toNat = n * 2 ^ l := Int.toNat_natCast _
      rw [den]
      cases a with
      | infinity s => cases fa
      | notANumber => cases fa
      | zero s =>
        have none : UnpackedFloat.div Format.binary64 (.zero s) (.finite .positive n (l - 1074) hn) =
          .zero (s / .positive) := rfl
        rw [none, units_zero, zero_mul, roundedQuotient_zero fits'.size_pos]
        exact ⟨rfl, units_packedZero _⟩
      | finite s m e hm =>
        obtain ⟨k, rfl, -, fits⟩ := ca
        have size := div_finite s fits fits'
        rw [size.units_quotient fits'.size_pos, units_finite, apply_mul]
        exact ⟨size.isNaN, rfl⟩

variable {w x y z : Float}

theorem count_mul (hx : x.isFinite = true) (hy : y.isFinite = true) :
    (x * y).isNaN = false ∧ count (x * y) = roundedQuotient (count x * count y) oneUnits :=
  ⟨isNaN_unpack_pack (isNaN_mul_unpacked (isCanonical_unpack _) (isCanonical_unpack _) hx hy),
    units_mul (isCanonical_unpack _) (isCanonical_unpack _) hx hy⟩

theorem count_div (hx : x.isFinite = true) (hy : y.isFinite = true) (pos : 0 < count y) :
    (x / y).isNaN = false ∧
      count (x / y) = roundedQuotient (count x * oneUnits) (count y).toNat := by
  obtain ⟨number, size⟩ := @units_div x.toModel.unpack y.toModel.unpack (isCanonical_unpack _)
    (isCanonical_unpack _) hx hy pos
  exact ⟨isNaN_unpack_pack number, size⟩

/-- A finite number above zero is one with a mantissa. -/
theorem unpack_of_pos (hx : x.isFinite = true) (pos : 0 < count x) :
    ∃ m e, ∃ hm : 0 < m, x.toModel.unpack = .finite .positive m e hm := by
  have canonical : IsCanonical x.toModel.unpack := isCanonical_unpack _
  change x.toModel.unpack.isFinite = true at hx
  change 0 < units x.toModel.unpack at pos
  cases hu : x.toModel.unpack with
  | infinity s => rw [hu] at hx; cases hx
  | notANumber => rw [hu] at hx; cases hx
  | zero s => rw [hu] at pos; cases pos
  | finite s m e hm =>
    cases s with
    | positive => exact ⟨m, e, hm, rfl⟩
    | negative =>
      rw [hu] at pos
      have none := Int.natCast_nonneg (m * 2 ^ (e + 1074).toNat)
      change 0 < -((m * 2 ^ (e + 1074).toNat : ℕ) : ℤ) at pos
      omega

/-- An infinite number stays as it is when it is divided by a positive one. -/
theorem div_infinite (nx : x.isNaN = false) (hx : x.isFinite = false) (hz : z.isFinite = true)
    (pos : 0 < count z) : (x / z).isNaN = false ∧ count (x / z) = count x := by
  obtain ⟨s, infinite⟩ := infinity_of_not_isFinite nx hx
  obtain ⟨m, e, hm, positive⟩ := unpack_of_pos hz pos
  have quotient : (x / z).toModel.unpack = .infinity s := by
    change UnpackedFloat.unpack Format.binary64 (UnpackedFloat.pack Format.binary64
      (UnpackedFloat.div Format.binary64 x.toModel.unpack z.toModel.unpack)) = _
    rw [infinite, positive]
    change UnpackedFloat.unpack _ (packedInfinity _ (s / .positive)) = _
    rw [unpack_packedInfinity, div_positive]
  refine ⟨?_, ?_⟩
  · change (x / z).toModel.unpack.isNaN = false
    rw [quotient]
    rfl
  · rw [count, count, quotient, infinite]

theorem isNaN_div (hx : x.isNaN = false) (hz : z.isFinite = true) (pos : 0 < count z) :
    (x / z).isNaN = false := by
  cases fx : x.isFinite with
  | true => exact (count_div fx hz pos).1
  | false => exact (div_infinite hx fx hz pos).1

/-- Dividing by a positive number keeps the order. -/
theorem div_le_div_right (h : x ≤ y) (hz : z.isFinite = true) (pos : 0 < count z) :
    x / z ≤ y / z := by
  obtain ⟨nx, ny⟩ := isNaN_of_le h
  have nx' := isNaN_div nx hz pos
  have ny' := isNaN_div ny hz pos
  have fx := isFinite_iff_count nx
  have fy := isFinite_iff_count ny
  have bounds := count_bounds nx'
  have bounds' := count_bounds ny'
  rw [le_iff_count nx ny] at h
  rw [le_iff_count nx' ny']
  cases hx : x.isFinite with
  | true =>
    cases hy : y.isFinite with
    | true =>
      rw [(count_div hx hz pos).2, (count_div hy hz pos).2]
      refine roundedQuotient_mono (by omega) (Int.mul_le_mul_of_nonneg_right h ?_)
      exact Int.natCast_nonneg _
    | false =>
      -- What is above a finite number is infinite only upwards.
      rw [(div_infinite ny hy hz pos).2]
      rw [fx] at hx
      rw [← Bool.not_eq_true, fy] at hy
      omega
  | false =>
    rw [(div_infinite nx hx hz pos).2]
    rw [← Bool.not_eq_true, fx] at hx
    rcases lt_or_ge (-(limit : ℤ)) (count x) with some | least
    · have hy : y.isFinite = false := by
        rw [← Bool.not_eq_true, fy]
        omega
      rw [(div_infinite ny hy hz pos).2]
      exact h
    · omega

/-- Multiplying by a number that is not negative keeps the order. -/
theorem mul_le_mul_left (hw : w.isFinite = true) (least : 0 ≤ count w) (h : x ≤ y)
    (hx : x.isFinite = true) (hy : y.isFinite = true) : w * x ≤ w * y := by
  obtain ⟨nx, ny⟩ := isNaN_of_le h
  obtain ⟨number, size⟩ := count_mul hw hx
  obtain ⟨number', size'⟩ := count_mul hw hy
  rw [le_iff_count nx ny] at h
  rw [le_iff_count number number', size, size']
  exact roundedQuotient_mono oneUnits_pos (Int.mul_le_mul_of_nonneg_left h least)

end EntityRules.Binary64
