import EntityRules.Proofs.Number.Fraction
import EntityRules.Proofs.Number.Text

/-! Doubles and whole numbers. -/

namespace EntityRules.Binary64

open Float.Model Float.Model.UnpackedFloat

variable {x y : Float} {n : ℤ}

/-- The word of a finite double without its sign. -/
theorem word_of_finite {d : Expanded} (h : parts x = .finite d) :
    ∃ w < infinityBits, x.toBits.toNat = w + (if d.negative then 2 ^ 63 else 0) ∧
      wordUnits w = d.mantissa * 2 ^ (d.exponent + 1074).toNat := by
  have word := x.toBits.toNat_lt
  have powers : Nat.pow 2 63 = 2 ^ 63 ∧ Nat.pow 2 52 = 2 ^ 52 ∧ Nat.pow 2 11 = 2 ^ 11 ∧
    infinityBits = 2047 * 2 ^ 52 := ⟨rfl, rfl, rfl, rfl⟩
  refine ⟨x.toBits.toNat % 2 ^ 63, ?_⟩
  unfold parts at h
  rw [powers.1, powers.2.1, powers.2.2.1] at h
  rw [powers.2.2.2]
  dsimp only at h
  split at h
  · split at h <;> cases h
  · split at h
    · next least =>
      cases h
      refine ⟨by omega, ?_, ?_⟩
      · simp only [decide_eq_true_eq]
        split <;> omega
      · have exponent : x.toBits.toNat % 2 ^ 63 / 2 ^ 52 = 0 := by omega
        have mantissa : x.toBits.toNat % 2 ^ 63 % 2 ^ 52 = x.toBits.toNat % 2 ^ 52 := by omega
        rw [wordUnits, if_pos exponent, mantissa]
        exact (Nat.mul_one _).symm
    · next other =>
      cases h
      refine ⟨by omega, ?_, ?_⟩
      · simp only [decide_eq_true_eq]
        split <;> omega
      · have exponent : x.toBits.toNat % 2 ^ 63 / 2 ^ 52 = x.toBits.toNat / 2 ^ 52 % 2 ^ 11 := by
          omega
        have mantissa : x.toBits.toNat % 2 ^ 63 % 2 ^ 52 = x.toBits.toNat % 2 ^ 52 := by omega
        rw [wordUnits, exponent, if_neg other, mantissa]
        congr 2
        dsimp only
        omega

/-- The finite doubles are those that have finite parts. -/
theorem isFinite_iff_parts : x.isFinite = true ↔ ∃ d, parts x = .finite d := by
  let b : BitVec Format.binary64.numBits := x.toBits.toBitVec
  have exponent : (unpackExponent b).toNat = x.toBits.toNat / 2 ^ 52 % 2 ^ 11 := by
    change b.toNat >>> 52 % 2 ^ 11 = _
    rw [Nat.shiftRight_eq_div_pow]
    rfl
  change (UnpackedFloat.unpack Format.binary64 b).isFinite = true ↔ _
  have powers : Nat.pow 2 52 = 2 ^ 52 ∧ Nat.pow 2 11 = 2 ^ 11 := ⟨rfl, rfl⟩
  unfold parts
  rw [powers.1, powers.2]
  dsimp only
  rw [← exponent]
  by_cases full : unpackExponent b = -1#_
  · have all : (unpackExponent b).toNat = 2047 := congrArg BitVec.toNat full
    rw [if_pos all]
    refine iff_of_false ?_ ?_
    · have other : UnpackedFloat.unpack Format.binary64 b =
          if unpackMantissa b = 0#_ then .infinity _ else .notANumber := if_pos full
      rw [other]
      split <;> nofun
    · rintro ⟨d, finite⟩
      split at finite <;> cases finite
  · have less : (unpackExponent b).toNat ≠ 2047 := fun all => full (BitVec.eq_of_toNat_eq all)
    rw [if_neg less]
    refine iff_of_true ?_ ?_
    · rcases unpack_cases b full with ⟨-, zero⟩ | ⟨m, k, fits, -, -, number⟩
      · rw [zero]
        rfl
      · rw [number]
        rfl
    · split <;> exact ⟨_, rfl⟩

/-- A finite double counts as its numerator over its denominator. -/
theorem count_of_finite {d : Expanded} (h : parts x = .finite d) :
    count x * d.fraction.2 = d.numerator * oneUnits := by
  obtain ⟨w, below, word, size⟩ := word_of_finite h
  have least := (isDouble_of_finite h).least
  have counted : count x = (signOf d.negative).apply (wordUnits w) :=
    units_word d.negative below.le word
  have scale : wordUnits w * d.fraction.2 = d.fraction.1 * oneUnits := by
    change _ * 2 ^ (-d.exponent).toNat = d.mantissa * 2 ^ d.exponent.toNat * oneUnits
    have shift : (d.exponent + 1074).toNat + (-d.exponent).toNat = d.exponent.toNat + 1074 := by
      omega
    rw [size, Nat.mul_assoc, ← Nat.pow_add, shift, pow_add_oneUnits, Nat.mul_assoc]
  rw [counted, ← apply_mul, scale, apply_mul, Expanded.numerator]
  cases d.negative <;> rfl

/-- A double equals a whole number exactly if it is finite and counts as that many ones. -/
theorem compareInt_eq_iff :
    compareInt n x = some .eq ↔ x.isFinite = true ∧ count x = n * oneUnits := by
  rw [isFinite_iff_parts]
  unfold compareInt
  cases h : parts x with
  | nan => exact iff_of_false nofun nofun
  | infinite negative => exact iff_of_false (by cases negative <;> nofun) nofun
  | finite d =>
    have scale : ((d.fraction.2 : ℕ) : ℤ) ≠ 0 := Int.natCast_ne_zero.mpr (Nat.two_pow_pos _).ne'
    have unit : (oneUnits : ℤ) ≠ 0 := Int.natCast_ne_zero.mpr oneUnits_pos.ne'
    dsimp only
    rw [Option.some_inj, compare_eq_iff_eq, and_iff_right ⟨d, rfl⟩, ← mul_left_inj' unit,
      ← count_of_finite h, mul_right_comm, mul_left_inj' scale, eq_comm]

/-- A finite double needs no rounding. -/
theorem rounded_count (hx : x.isFinite = true) : rounded (count x) = count x := by
  have canonical := isCanonical_unpack x.toModel.toBits.toBitVec
  change x.toModel.unpack.isFinite = true at hx
  change IsCanonical x.toModel.unpack at canonical
  unfold count
  generalize x.toModel.unpack = u at hx canonical
  cases u with
  | notANumber => cases hx
  | infinity s => cases hx
  | zero s => exact rounded_zero
  | finite s m e hm =>
    obtain ⟨k, rfl, less, fits⟩ := canonical
    rw [units_finite, rounded_apply, fits.nearest_size, Nat.min_eq_left (fits.size_lt less).le]

theorem beq_iff_compare :
    (x == y) = (x.toModel.unpack.compare y.toModel.unpack == some .eq) := rfl

/-- Numbers that are no non-numbers are equal exactly if they count as the same. -/
theorem beq_iff_count (hx : x.isNaN = false) (hy : y.isNaN = false) :
    (x == y) = true ↔ count x = count y := by
  rw [beq_iff_compare, compare_eq_count hx hy, beq_iff_eq, Option.some_inj, compare_eq_iff_eq]

theorem isNaN_of_beq (h : (x == y) = true) : x.isNaN = false ∧ y.isNaN = false :=
  isNaN_of_compare (beq_iff_eq.mp h)

theorem beq_comm (x y : Float) : (x == y) = (y == x) := by
  rw [Bool.eq_iff_iff]
  constructor
  · intro h
    obtain ⟨hx, hy⟩ := isNaN_of_beq h
    rw [beq_iff_count hx hy] at h
    exact (beq_iff_count hy hx).mpr h.symm
  · intro h
    obtain ⟨hy, hx⟩ := isNaN_of_beq h
    rw [beq_iff_count hy hx] at h
    exact (beq_iff_count hx hy).mpr h.symm

/-- The double nearest to a quotient is given unless it is infinite. -/
theorem ofQuotient?_cases {den : ℤ} (hden : 0 < den) (num : ℤ) :
    (∃ x, ofQuotient? num den = some x ∧ x.isFinite = true ∧
      count x = roundedQuotient (num * oneUnits) den.toNat) ∨
    (ofQuotient? num den = none ∧ (roundedQuotient (num * oneUnits) den.toNat ≤ -(limit : ℤ) ∨
      limit ≤ roundedQuotient (num * oneUnits) den.toNat)) := by
  obtain ⟨d, rfl⟩ := Int.eq_ofNat_of_zero_le hden.le
  have sign : (decide (num < 0) != decide ((d : ℤ) < 0)) = decide (num < 0) := by
    rw [decide_eq_false (not_lt.mpr hden.le), Bool.bne_false]
  have number := isNaN_ofFraction (decide (num < 0)) num.natAbs d
  have size := count_ofFraction (Int.natCast_pos.mp hden) num
  unfold ofQuotient?
  dsimp only
  rw [sign, Int.natAbs_natCast, Int.toNat_natCast, ← size]
  split
  · next infinite =>
    have beyond := mt (isInf_iff number).mpr (by rw [infinite]; nofun)
    rw [isFinite_iff_count number] at beyond
    exact .inr ⟨rfl, by omega⟩
  · next finite =>
    exact .inl ⟨_, rfl, (isInf_iff number).mp (Bool.eq_false_of_not_eq_true finite), rfl⟩

theorem ofQuotient?_one (n : ℤ) : ofQuotient? n 1 = ofInt? n := by
  have sign : (decide (n < 0) != decide ((1 : ℤ) < 0)) = decide (n < 0) := Bool.bne_false _
  unfold ofQuotient? ofInt?
  rw [sign]
  rfl

/-- The double nearest to a whole number. -/
theorem count_ofInt (h : ofInt? n = some x) :
    x.isFinite = true ∧ count x = rounded (n * oneUnits) := by
  have units := roundedQuotient_mul Nat.one_pos (n * oneUnits)
  rw [Nat.cast_one, mul_one] at units
  rw [← ofQuotient?_one] at h
  rw [← units]
  obtain ⟨y, same, finite, size⟩ | ⟨none, -⟩ := ofQuotient?_cases Int.one_pos n
  · cases same.symm.trans h
    exact ⟨finite, size⟩
  · cases none.symm.trans h

/-- A whole number that a double equals is rounded to it. -/
theorem beq_of_compareInt (same : compareInt n x = some .eq) (rounds : ofInt? n = some y) :
    (y == x) = true := by
  obtain ⟨fx, hx⟩ := compareInt_eq_iff.mp same
  obtain ⟨fy, hy⟩ := count_ofInt rounds
  rw [beq_iff_count (isNaN_of_isFinite fy) (isNaN_of_isFinite fx), hy, ← hx, rounded_count fx]

end EntityRules.Binary64
