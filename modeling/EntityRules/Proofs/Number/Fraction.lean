import EntityRules.Proofs.Number.Word

/-! Fractions of units, rounded to the nearest number of units that a double stands for. -/

namespace EntityRules.Binary64

open Float.Model Float.Model.UnpackedFloat

variable {num den num' den' : ℕ}

/-- Comparing multiples by powers of two, only the difference of the exponents counts. -/
theorem mul_pow_lt_iff {m n a b a' b' : ℕ} (h : a + b' = a' + b) :
    m * 2 ^ b < n * 2 ^ a ↔ m * 2 ^ b' < n * 2 ^ a' := by
  have left : m * 2 ^ b * 2 ^ b' = m * 2 ^ b' * 2 ^ b := Nat.mul_right_comm ..
  have right : n * 2 ^ a * 2 ^ b' = n * 2 ^ a' * 2 ^ b := by
    rw [Nat.mul_assoc, Nat.mul_assoc, ← Nat.pow_add, ← Nat.pow_add, h]
  rw [← Nat.mul_lt_mul_right (Nat.two_pow_pos b'), left, right,
    Nat.mul_lt_mul_right (Nat.two_pow_pos b)]

/-- A quotient is between the power of two of its exponent and the next one. -/
theorem binaryExponent_bounds (hnum : 0 < num) (hden : 0 < den) {a b : ℕ}
    (h : binaryExponent num den = (a : ℤ) - b) :
    den * 2 ^ a ≤ num * 2 ^ b ∧ num * 2 ^ b < den * 2 ^ (a + 1) := by
  have numLow := Nat.log2_self_le hnum.ne'
  have numHigh := @Nat.lt_log2_self num
  have denLow := Nat.log2_self_le hden.ne'
  have denHigh := @Nat.lt_log2_self den
  unfold binaryExponent at h
  dsimp only at h
  split at h
  · next below =>
    replace below : num * 2 ^ (-((num.log2 : ℤ) - den.log2)).toNat <
      den * 2 ^ ((num.log2 : ℤ) - den.log2).toNat := below
    constructor
    · calc den * 2 ^ a ≤ 2 ^ (den.log2 + 1) * 2 ^ a := Nat.mul_le_mul_right _ denHigh.le
        _ = 2 ^ num.log2 * 2 ^ b := by rw [← Nat.pow_add, ← Nat.pow_add]; congr 1; omega
        _ ≤ num * 2 ^ b := Nat.mul_le_mul_right _ numLow
    · exact (mul_pow_lt_iff (by omega)).mp below
  · next above =>
    replace above : ¬ num * 2 ^ (-((num.log2 : ℤ) - den.log2)).toNat <
      den * 2 ^ ((num.log2 : ℤ) - den.log2).toNat := above
    constructor
    · exact Nat.not_lt.mp fun less => above ((mul_pow_lt_iff (by omega)).mp less)
    · calc num * 2 ^ b < 2 ^ (num.log2 + 1) * 2 ^ b :=
            Nat.mul_lt_mul_of_pos_right numHigh (Nat.two_pow_pos b)
        _ = 2 ^ den.log2 * 2 ^ (a + 1) := by rw [← Nat.pow_add, ← Nat.pow_add]; congr 1; omega
        _ ≤ den * 2 ^ (a + 1) := Nat.mul_le_mul_right _ denLow

theorem spareBits_quotient (hnum : 0 < num) (hden : 0 < den) (b : ℕ) :
    spareBits (num * 2 ^ b / den) = (binaryExponent num den + b - 52).toNat := by
  rcases lt_or_ge (binaryExponent num den + b) 0 with small | large
  · -- The quotient is below one.
    obtain ⟨c, hc⟩ := Int.eq_ofNat_of_zero_le (a := -(binaryExponent num den + b) - 1) (by omega)
    obtain ⟨-, high⟩ := @binaryExponent_bounds num den hnum hden 0 (b + (c + 1)) (by omega)
    have below : num * 2 ^ b * 2 < den * 2 :=
      calc num * 2 ^ b * 2 ≤ num * 2 ^ b * 2 ^ (c + 1) :=
            Nat.mul_le_mul_left _ (Nat.le_self_pow (Nat.succ_ne_zero c) 2)
        _ = num * 2 ^ (b + (c + 1)) := by rw [Nat.mul_assoc, ← Nat.pow_add]
        _ < den * 2 := high
    have none : num * 2 ^ b / den = 0 := Nat.div_eq_of_lt (Nat.lt_of_mul_lt_mul_right below)
    rw [none]
    have zero : spareBits 0 = 0 := rfl
    omega
  · obtain ⟨a, ha⟩ := Int.eq_ofNat_of_zero_le large
    obtain ⟨low, high⟩ := @binaryExponent_bounds num den hnum hden a b (by omega)
    rw [Nat.mul_comm den] at low high
    replace low := (Nat.le_div_iff_mul_le hden).mpr low
    replace high := (Nat.div_lt_iff_lt_mul hden).mpr high
    have bits : (num * 2 ^ b / den).log2 = a :=
      (Nat.log2_eq_iff ((Nat.two_pow_pos a).trans_le low).ne').mpr ⟨low, high⟩
    rw [spareBits, bits]
    omega

/-- How many units there are in one. -/
def oneUnits : ℕ := 2 ^ 1074

theorem oneUnits_pos : 0 < oneUnits := pow_pos (by decide) 1074

theorem pow_add_oneUnits (k : ℕ) : 2 ^ (k + 1074) = 2 ^ k * oneUnits := pow_add ..

/-- The word nearest to a quotient stands for the quotient in units, rounded. -/
theorem wordUnits_nearestBits (hden : 0 < den) (num : ℕ) :
    wordUnits (nearestBits num den) = min (nearestFraction (num * oneUnits) den) limit := by
  unfold oneUnits
  rcases Nat.eq_zero_or_pos num with rfl | hnum
  · have none : nearestBits 0 den = 0 := if_pos rfl
    rw [none, Nat.zero_mul, nearestFraction_zero hden, Nat.zero_min]
    rfl
  · obtain ⟨k, hk⟩ : ∃ k : ℕ, spareBits (num * 2 ^ 1074 / den) = k := ⟨_, rfl⟩
    have spare := spareBits_quotient hnum hden 1074
    have unit : max (binaryExponent num den - 52) (-1074) = (k : ℤ) - 1074 := by omega
    have place : ((k : ℤ) - 1074 + 1074).toNat = k := by omega
    have mantissa : roundDiv (num * 2 ^ (-((k : ℤ) - 1074)).toNat)
        (den * 2 ^ ((k : ℤ) - 1074).toNat) = roundDiv (num * 2 ^ 1074) (den * 2 ^ k) :=
      roundDiv_mul_pow num den (by omega)
    have bits : nearestBits num den =
        min (roundDiv (num * 2 ^ 1074) (den * 2 ^ k) + k * 2 ^ 52) infinityBits := by
      rw [← mantissa]
      unfold nearestBits
      dsimp only
      rw [if_neg hnum.ne', unit, place]
      rfl
    rw [bits, wordUnits_strictMono.monotone.map_min, wordUnits_infinityBits, nearestFraction, hk,
      wordUnits_add]
    · exact hk ▸ mantissa_le hden _
    · intro some
      exact hk ▸ le_mantissa hden (hk ▸ some)

/-- What a quotient of units is rounded to. -/
def roundedQuotient (z : ℤ) (den : ℕ) : ℤ :=
  (signOf (decide (z < 0))).apply (min (nearestFraction z.natAbs den) limit : ℕ)

theorem roundedQuotient_of_nonneg {z : ℤ} (h : 0 ≤ z) (den : ℕ) :
    roundedQuotient z den = (min (nearestFraction z.natAbs den) limit : ℕ) := by
  rw [roundedQuotient, decide_eq_false (not_lt.mpr h)]
  rfl

theorem roundedQuotient_of_neg {z : ℤ} (h : z < 0) (den : ℕ) :
    roundedQuotient z den = -(min (nearestFraction z.natAbs den) limit : ℕ) := by
  rw [roundedQuotient, decide_eq_true h]
  rfl

theorem roundedQuotient_apply (hden : 0 < den) (s : Sign) (n : ℕ) :
    roundedQuotient (s.apply n) den = s.apply (min (nearestFraction n den) limit : ℕ) := by
  cases s with
  | positive => exact roundedQuotient_of_nonneg (Int.natCast_nonneg n) den
  | negative =>
    rcases Nat.eq_zero_or_pos n with rfl | some
    · rw [nearestFraction_zero hden, Nat.zero_min]
      change roundedQuotient 0 den = 0
      rw [roundedQuotient_of_nonneg le_rfl, Int.natAbs_zero, nearestFraction_zero hden,
        Nat.zero_min]
      rfl
    · have below : Sign.negative.apply (n : ℤ) < 0 := by
        change -(n : ℤ) < 0
        omega
      have size : (Sign.negative.apply (n : ℤ)).natAbs = n := Int.natAbs_neg _
      rw [roundedQuotient_of_neg below, size]
      rfl

theorem roundedQuotient_mono (hden : 0 < den) {y z : ℤ} (h : y ≤ z) :
    roundedQuotient y den ≤ roundedQuotient z den := by
  have sizes {m n : ℕ} (le : m ≤ n) : nearestFraction m den ≤ nearestFraction n den :=
    nearestFraction_mono hden hden (Nat.mul_le_mul_right _ le)
  rcases lt_or_ge y 0 with hy | hy
  · rw [roundedQuotient_of_neg hy]
    rcases lt_or_ge z 0 with hz | hz
    · have := sizes (m := z.natAbs) (n := y.natAbs) (by omega)
      rw [roundedQuotient_of_neg hz]
      omega
    · rw [roundedQuotient_of_nonneg hz]
      omega
  · have := sizes (m := y.natAbs) (n := z.natAbs) (by omega)
    rw [roundedQuotient_of_nonneg hy, roundedQuotient_of_nonneg (hy.trans h)]
    omega

/-- A whole number of units is rounded as it is. -/
theorem roundedQuotient_mul (hden : 0 < den) (z : ℤ) :
    roundedQuotient (z * den) den = rounded z := by
  obtain ⟨s, n, rfl⟩ : ∃ s : Sign, ∃ n : ℕ, s.apply n = z := by
    rcases Int.natAbs_eq z with h | h
    · exact ⟨.positive, z.natAbs, h.symm⟩
    · exact ⟨.negative, z.natAbs, h.symm⟩
  rw [← apply_mul, roundedQuotient_apply hden, nearestFraction_mul n hden, rounded_apply]

/-- The double nearest to a quotient. -/
theorem count_ofFraction (hden : 0 < den) (z : ℤ) :
    count (ofFraction (decide (z < 0)) z.natAbs den) = roundedQuotient (z * oneUnits) den := by
  have unit : (0 : ℤ) < oneUnits := Int.natCast_pos.mpr oneUnits_pos
  have sign : decide (z * oneUnits < 0) = decide (z < 0) :=
    decide_eq_decide.mpr ⟨fun h => neg_of_mul_neg_left h unit.le, (mul_neg_of_neg_of_pos · unit)⟩
  rw [ofFraction, count_word _ (nearestBits_le _ _), wordUnits_nearestBits hden, roundedQuotient,
    sign, Int.natAbs_mul, Int.natAbs_natCast]

theorem isInf_iff {x : Float} (hx : x.isNaN = false) : x.isInf = false ↔ x.isFinite = true := by
  change x.toModel.unpack.isNaN = false at hx
  change x.toModel.unpack.isInf = false ↔ x.toModel.unpack.isFinite = true
  cases hu : x.toModel.unpack with
  | notANumber => rw [hu] at hx; cases hx
  | infinity s => exact iff_of_false nofun nofun
  | zero s => exact iff_of_true rfl rfl
  | finite s m e hm => exact iff_of_true rfl rfl

end EntityRules.Binary64
