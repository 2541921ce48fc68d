import EntityRules.Proofs.Number.Word

/-! Shares of whole numbers as doubles. -/

namespace EntityRules.Binary64

open Float.Model Float.Model.UnpackedFloat

variable {part whole : ℕ}

/-- The word of one. -/
def oneBits : ℕ := 1023 * 2 ^ 52

/-- A proper share lies below a power of a half, the one before its exponent. -/
theorem binaryExponent_of_lt (hp : 0 < part) (h : part < whole) :
    ∃ j : ℕ, binaryExponent part whole = -(j + 1) ∧ part * 2 ^ j < whole := by
  have fewer : part.log2 ≤ whole.log2 :=
    (Nat.le_log2 (by omega)).mpr ((Nat.log2_self_le hp.ne').trans h.le)
  obtain ⟨i, hi⟩ := Nat.exists_eq_add_of_le fewer
  have guess : (part.log2 : ℤ) - whole.log2 = -i := by omega
  unfold binaryExponent
  dsimp only
  rw [guess, Int.neg_neg, Int.toNat_natCast, Int.toNat_neg_natCast]
  split
  · next below => exact ⟨i, by omega, by simpa using below⟩
  · next above =>
    cases i with
    | zero => exact absurd (by simpa using h) above
    | succ j =>
      refine ⟨j, by omega, ?_⟩
      calc part * 2 ^ j < 2 ^ (part.log2 + 1) * 2 ^ j :=
            Nat.mul_lt_mul_of_pos_right Nat.lt_log2_self (Nat.two_pow_pos j)
        _ = 2 ^ whole.log2 := by rw [hi, ← Nat.pow_add]; congr 1; omega
        _ ≤ whole := Nat.log2_self_le (by omega)

/-- A quotient below a limit rounds up to the limit only from the last half before it. -/
theorem roundDiv_lt_cases {num den n : ℕ} (h : num < den * (n + 1)) (odd : n % 2 = 1) :
    roundDiv num den ≤ n + 1 ∧
      (roundDiv num den = n + 1 ↔ (2 * n + 1) * den ≤ 2 * num) := by
  have rest := Nat.mod_lt num (Nat.pos_of_lt_mul_right h)
  have whole := Nat.div_add_mod num den
  have most : num / den ≤ n := Nat.lt_succ_iff.mp (Nat.div_lt_of_lt_mul h)
  rcases Nat.lt_or_eq_of_le most with less | last
  · -- The quotient is at least one less, so rounding up does not reach the limit.
    have up := roundDiv_eq num den
    refine ⟨by omega, iff_of_false (by omega) ?_⟩
    have bound : den * (num / den + 1) ≤ den * n := Nat.mul_le_mul_left den less
    rw [Nat.mul_add, Nat.mul_one] at bound
    rw [Nat.add_mul, Nat.mul_assoc, Nat.mul_comm n den]
    omega
  · rw [last] at whole
    have split : (2 * n + 1) * den = 2 * (den * n) + den := by
      rw [Nat.add_mul, Nat.mul_assoc, Nat.mul_comm n den, Nat.one_mul]
    unfold roundDiv
    dsimp only
    rw [last, split]
    split <;> omega

/-- The word of a share whose unit is a power of a half. -/
theorem nearestBits_eq {u : ℕ} (hp : 0 < part)
    (unit : max (binaryExponent part whole - 52) (-1074) = -(u : ℤ)) :
    nearestBits part whole =
      min (roundDiv (part * 2 ^ u) whole + (1074 - u) * 2 ^ 52) infinityBits := by
  have up : (-(u : ℤ)).toNat = 0 := by omega
  have down : (- -(u : ℤ)).toNat = u := by omega
  have place : (-(u : ℤ) + 1074).toNat = 1074 - u := by omega
  have least : Nat.pow 2 0 = 1 := rfl
  unfold nearestBits
  dsimp only
  rw [if_neg hp.ne', unit, up, down, place, least, Nat.mul_one]
  rfl

theorem nearestBits_self (h : 0 < whole) : nearestBits whole whole = oneBits := by
  have exponent : binaryExponent whole whole = 0 := by simp [binaryExponent]
  have unit : max (binaryExponent whole whole - 52) (-1074) = -((52 : ℕ) : ℤ) := by
    rw [exponent]
    decide
  rw [nearestBits_eq h unit, Nat.mul_comm, roundDiv_mul_self _ h]
  decide

/-- A proper share is rounded to one at most, and to one only if what is missing is no more than the
half of the least difference below one. -/
theorem nearestBits_of_lt (h : part < whole) :
    nearestBits part whole ≤ oneBits ∧
      (nearestBits part whole = oneBits ↔ 2 ^ 54 * (whole - part) ≤ whole) := by
  have one : oneBits = 2 ^ 53 + 1021 * 2 ^ 52 := by decide
  have top : oneBits < infinityBits := by decide
  rcases Nat.eq_zero_or_pos part with rfl | hp
  · have none : nearestBits 0 whole = 0 := if_pos rfl
    rw [none]
    exact ⟨Nat.zero_le _, iff_of_false (by omega) (by omega)⟩
  obtain ⟨j, exponent, below⟩ := binaryExponent_of_lt hp h
  rcases Nat.eq_zero_or_pos j with rfl | deeper
  · -- From a half on, the unit is the least difference below one.
    have unit : max (binaryExponent part whole - 52) (-1074) = -((53 : ℕ) : ℤ) := by omega
    have limit : part * 2 ^ 53 < whole * (2 ^ 53 - 1 + 1) :=
      Nat.mul_lt_mul_of_pos_right h (by decide)
    obtain ⟨most, full⟩ := roundDiv_lt_cases limit (by decide)
    rw [nearestBits_eq hp unit]
    generalize roundDiv (part * 2 ^ 53) whole = mantissa at most full
    constructor <;> omega
  · have unit : max (binaryExponent part whole - 52) (-1074) = -((min (j + 53) 1074 : ℕ) : ℤ) := by
      omega
    have limit : part * 2 ^ min (j + 53) 1074 ≤ whole * 2 ^ 53 :=
      calc part * 2 ^ min (j + 53) 1074 ≤ part * 2 ^ (j + 53) :=
            Nat.mul_le_mul_left _ (Nat.pow_le_pow_right (by decide) (Nat.min_le_left ..))
        _ = part * 2 ^ j * 2 ^ 53 := by rw [Nat.pow_add, Nat.mul_assoc]
        _ ≤ whole * 2 ^ 53 := Nat.mul_le_mul_right _ below.le
    have most : roundDiv (part * 2 ^ min (j + 53) 1074) whole ≤ 2 ^ 53 := by
      have mono := roundDiv_mono whole limit
      rwa [Nat.mul_comm whole, roundDiv_mul_self _ (by omega)] at mono
    have half : part * 2 ≤ part * 2 ^ j :=
      Nat.mul_le_mul_left _ (Nat.le_self_pow deeper.ne' 2)
    have place : (1074 - min (j + 53) 1074) * 2 ^ 52 ≤ 1020 * 2 ^ 52 :=
      Nat.mul_le_mul_right _ (by omega)
    have less : nearestBits part whole < oneBits := by
      rw [nearestBits_eq hp unit]
      exact (Nat.min_le_left ..).trans_lt ((Nat.add_le_add most place).trans_lt (by decide))
    exact ⟨less.le, iff_of_false less.ne (by omega)⟩

/-- A share as a double lies between zero and one, and it is one exactly if what is missing is no
more than the half of the least difference below one. -/
theorem share_spec (hw : 0 < whole) (h : part ≤ whole) :
    0 ≤ ofFraction false part whole ∧ ofFraction false part whole ≤ 1 ∧
      (ofFraction false part whole = 1 ↔ 2 ^ 54 * (whole - part) ≤ whole) := by
  have one : (1 : Float) = .ofBits (UInt64.ofNat oneBits) := by decide
  have zero : (0 : Float) = .ofBits (UInt64.ofNat 0) := by decide
  have bits : nearestBits part whole ≤ oneBits ∧
      (nearestBits part whole = oneBits ↔ 2 ^ 54 * (whole - part) ≤ whole) := by
    rcases Nat.lt_or_eq_of_le h with proper | rfl
    · exact nearestBits_of_lt proper
    · rw [nearestBits_self hw]
      exact ⟨le_rfl, iff_of_true rfl (by omega)⟩
  have room : oneBits < infinityBits := by decide
  have word : ofFraction false part whole = .ofBits (UInt64.ofNat (nearestBits part whole)) := rfl
  have size := count_ofBits (bits.1.trans_lt room)
  have number := isNaN_ofFraction false part whole
  refine ⟨?_, ?_, ?_⟩
  · rw [le_iff_count (by decide) number, word, size, zero, count_ofBits (by decide)]
    exact Int.ofNat_le.mpr (wordUnits_strictMono.monotone (Nat.zero_le _))
  · rw [le_iff_count number (by decide), word, size, one, count_ofBits room]
    exact Int.ofNat_le.mpr (wordUnits_strictMono.monotone bits.1)
  · rw [← bits.2]
    constructor
    · intro same
      have counts := congrArg count same
      rw [word, size, one, count_ofBits room] at counts
      exact wordUnits_strictMono.injective (Int.ofNat.inj counts)
    · intro same
      rw [word, same, one]

end EntityRules.Binary64
