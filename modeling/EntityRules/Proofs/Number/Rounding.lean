import EntityRules.Proofs.Number.Units

/-! Rounding to mantissas of 53 bits keeps the order of fractions. -/

namespace EntityRules.Binary64

open Float.Model Float.Model.UnpackedFloat

variable {m num den num' den' : ℕ}

theorem roundDiv_le_roundDiv (hden : 0 < den) (hden' : 0 < den')
    (h : num * den' ≤ num' * den) : roundDiv num den ≤ roundDiv num' den' := by
  rw [← roundDiv_mul_right num den hden', ← roundDiv_mul_right num' den' hden,
    Nat.mul_comm den' den]
  exact roundDiv_mono _ h

/-- A fraction rounded to the nearest whole number with a mantissa of 53 bits. -/
def nearestFraction (num den : ℕ) : ℕ :=
  roundDiv num (den * 2 ^ spareBits (num / den)) * 2 ^ spareBits (num / den)

theorem nearestFraction_mul (n : ℕ) (hden : 0 < den) :
    nearestFraction (n * den) den = nearest n := by
  rw [nearestFraction, Nat.mul_div_cancel n hden, Nat.mul_comm den, roundDiv_mul_right _ _ hden,
    nearest]

/-- The mantissa of a rounded fraction; when rounding fills it up it is one more than 53 bits
hold. -/
theorem mantissa_le (hden : 0 < den) (num : ℕ) :
    roundDiv num (den * 2 ^ spareBits (num / den)) ≤ 2 ^ 53 := by
  have unit : 0 < den * 2 ^ spareBits (num / den) := Nat.mul_pos hden (Nat.two_pow_pos _)
  have below : num < 2 ^ 53 * 2 ^ spareBits (num / den) * den :=
    (Nat.div_lt_iff_lt_mul hden).mp (lt_of_spareBits _)
  have mono : roundDiv num (den * 2 ^ spareBits (num / den)) ≤
      roundDiv (2 ^ 53 * (den * 2 ^ spareBits (num / den))) (den * 2 ^ spareBits (num / den)) :=
    roundDiv_mono _ (by rw [Nat.mul_comm den, ← Nat.mul_assoc]; exact below.le)
  rwa [roundDiv_mul_self _ unit] at mono

theorem le_mantissa (hden : 0 < den) (h : 0 < spareBits (num / den)) :
    2 ^ 52 ≤ roundDiv num (den * 2 ^ spareBits (num / den)) := by
  have unit : 0 < den * 2 ^ spareBits (num / den) := Nat.mul_pos hden (Nat.two_pow_pos _)
  have least : 2 ^ 52 * 2 ^ spareBits (num / den) * den ≤ num :=
    (Nat.le_div_iff_mul_le hden).mp (le_of_spareBits h)
  have mono : roundDiv (2 ^ 52 * (den * 2 ^ spareBits (num / den)))
      (den * 2 ^ spareBits (num / den)) ≤ roundDiv num (den * 2 ^ spareBits (num / den)) :=
    roundDiv_mono _ (by rwa [Nat.mul_comm den, ← Nat.mul_assoc])
  rwa [roundDiv_mul_self _ unit] at mono

theorem spareBits_mono {n n' : ℕ} (h : n ≤ n') : spareBits n ≤ spareBits n' := by
  unfold spareBits
  by_cases zero : n = 0
  · simp [zero]
  · have bits : n.log2 ≤ n'.log2 := (Nat.le_log2 (by omega)).mpr ((Nat.log2_self_le zero).trans h)
    omega

/-- Rounding keeps the order of fractions. -/
theorem nearestFraction_mono (hden : 0 < den) (hden' : 0 < den') (h : num * den' ≤ num' * den) :
    nearestFraction num den ≤ nearestFraction num' den' := by
  have parts : num / den ≤ num' / den' := by
    rw [Nat.le_div_iff_mul_le hden']
    refine Nat.le_of_mul_le_mul_right ?_ hden
    calc num / den * den' * den = num / den * den * den' := Nat.mul_right_comm ..
      _ ≤ num * den' := Nat.mul_le_mul_right _ (Nat.div_mul_le_self ..)
      _ ≤ num' * den := h
  unfold nearestFraction
  rcases Nat.lt_or_eq_of_le (spareBits_mono parts) with less | same
  · -- The one with fewer bits rounds to a power of two at most, the other one to that at least.
    calc roundDiv num (den * 2 ^ spareBits (num / den)) * 2 ^ spareBits (num / den)
        ≤ 2 ^ 53 * 2 ^ spareBits (num / den) := Nat.mul_le_mul_right _ (mantissa_le hden num)
      _ = 2 ^ 52 * 2 ^ (spareBits (num / den) + 1) := by rw [Nat.pow_succ]; omega
      _ ≤ 2 ^ 52 * 2 ^ spareBits (num' / den') :=
          Nat.mul_le_mul_left _ (Nat.pow_le_pow_right (by decide) less)
      _ ≤ _ := Nat.mul_le_mul_right _ (le_mantissa hden' (by omega))
  · rw [same]
    refine Nat.mul_le_mul_right _ (roundDiv_le_roundDiv ?_ ?_ ?_)
    · exact Nat.mul_pos hden (Nat.two_pow_pos _)
    · exact Nat.mul_pos hden' (Nat.two_pow_pos _)
    · rw [← Nat.mul_assoc, ← Nat.mul_assoc]
      exact Nat.mul_le_mul_right _ h

theorem nearest_zero : nearest 0 = 0 := by decide

theorem nearestFraction_zero (hden : 0 < den) : nearestFraction 0 den = 0 := by
  have whole := nearestFraction_mul 0 hden
  rwa [Nat.zero_mul, nearest_zero] at whole

/-- Rounding a quotient of multiples by powers of two, only the difference of the exponents
counts. -/
theorem roundDiv_mul_pow (num den : ℕ) {a b a' b' : ℕ} (h : a + b' = a' + b) :
    roundDiv (num * 2 ^ a) (den * 2 ^ b) = roundDiv (num * 2 ^ a') (den * 2 ^ b') := by
  rw [← roundDiv_mul_right _ (den * 2 ^ b) (Nat.two_pow_pos b'),
    ← roundDiv_mul_right _ (den * 2 ^ b') (Nat.two_pow_pos b), Nat.mul_assoc, Nat.mul_assoc,
    Nat.mul_assoc, Nat.mul_assoc, Nat.mul_comm (2 ^ b'), ← Nat.pow_add, ← Nat.pow_add,
    ← Nat.pow_add, h]

/-- Fractions that are the same are rounded alike. -/
theorem nearestFraction_congr (hden : 0 < den) (hden' : 0 < den')
    (h : num * den' = num' * den) : nearestFraction num den = nearestFraction num' den' :=
  Nat.le_antisymm (nearestFraction_mono hden hden' h.le) (nearestFraction_mono hden' hden h.ge)

theorem nearest_mono {n n' : ℕ} (h : n ≤ n') : nearest n ≤ nearest n' := by
  rw [← nearestFraction_mul n Nat.one_pos, ← nearestFraction_mul n' Nat.one_pos]
  exact nearestFraction_mono Nat.one_pos Nat.one_pos (by omega)

theorem log2_mul_pow (hm : 0 < m) (j : ℕ) : (m * 2 ^ j).log2 = m.log2 + j := by
  have some : m * 2 ^ j ≠ 0 := (Nat.mul_pos hm (Nat.two_pow_pos j)).ne'
  rw [Nat.log2_eq_iff some, Nat.pow_add, Nat.add_right_comm, Nat.pow_add]
  exact ⟨Nat.mul_le_mul_right _ (Nat.log2_self_le hm.ne'),
    Nat.mul_lt_mul_of_pos_right Nat.lt_log2_self (Nat.two_pow_pos j)⟩

theorem spareBits_mul_pow (hm : 0 < m) (j : ℕ) : spareBits (m * 2 ^ j) = m.log2 + j - 52 := by
  rw [spareBits, log2_mul_pow hm]

/-- A mantissa with the bits behind it, as it stands for a fraction: the round bit is set from a
half on, the sticky bit for what is neither whole nor a half. -/
structure StandsFor (em : ExtendedMantissa) (num den : ℕ) : Prop where
  mantissa : em.mantissa = num / den
  roundBit : em.roundBit = decide (den ≤ 2 * (num % den))
  stickyBit : em.stickyBit = decide (2 * (num % den) ≠ 0 ∧ 2 * (num % den) ≠ den)

variable {em : ExtendedMantissa}

theorem standsFor_ofFraction (hden : 0 < den) (num : ℕ) :
    StandsFor (.ofMantissaAndAccuracy (num / den) (accuracyOfFraction (num % den) den))
      num den := by
  unfold accuracyOfFraction
  split
  · exact ⟨rfl, (decide_eq_false (by omega)).symm, (decide_eq_false (by omega)).symm⟩
  · rcases Nat.lt_trichotomy (2 * (num % den)) den with less | half | more
    · rw [compare_lt_iff_lt.mpr less]
      exact ⟨rfl, (decide_eq_false (by omega)).symm, (decide_eq_true (by omega)).symm⟩
    · rw [compare_eq_iff_eq.mpr half]
      exact ⟨rfl, (decide_eq_true (by omega)).symm, (decide_eq_false (by omega)).symm⟩
    · rw [compare_gt_iff_gt.mpr more]
      exact ⟨rfl, (decide_eq_true (by omega)).symm, (decide_eq_true (by omega)).symm⟩

theorem StandsFor.shiftRightOne (h : StandsFor em num den) (hden : 0 < den) :
    StandsFor em.shiftRightOne num (den * 2) := by
  have low := Nat.mod_lt num hden
  have dropped : num % (den * 2) = num % den + den * (num / den % 2) := Nat.mod_mul
  refine ⟨?_, ?_, ?_⟩
  · rw [← Nat.div_div_eq_div_mul, ← h.mantissa]
    rfl
  · change (em.mantissa % 2 != 0) = _
    rw [h.mantissa, dropped]
    rcases Nat.mod_two_eq_zero_or_one (num / den) with bit | bit
    · rw [bit, decide_eq_false (by omega)]
      rfl
    · rw [bit, decide_eq_true (by omega)]
      rfl
  · change (em.roundBit || em.stickyBit) = _
    rw [h.roundBit, h.stickyBit, dropped, ← Bool.decide_or]
    rcases Nat.mod_two_eq_zero_or_one (num / den) with bit | bit <;> rw [bit] <;>
      exact decide_eq_decide.mpr (by omega)

theorem StandsFor.shiftRight (h : StandsFor em num den) (hden : 0 < den) (j : ℕ) :
    StandsFor (em >>> j) num (den * 2 ^ j) := by
  induction j with
  | zero =>
    rw [Nat.pow_zero, Nat.mul_one]
    exact h
  | succ j ih =>
    rw [Nat.pow_succ, ← Nat.mul_assoc]
    exact ih.shiftRightOne (Nat.mul_pos hden (Nat.two_pow_pos j))

theorem StandsFor.roundedMantissa (h : StandsFor em num den) (hden : 0 < den) :
    em.roundedMantissa = roundDiv num den := by
  obtain ⟨m, round, sticky⟩ := em
  obtain rfl : m = num / den := h.mantissa
  obtain rfl : round = _ := h.roundBit
  obtain rfl : sticky = _ := h.stickyBit
  unfold roundDiv
  dsimp only
  rcases Nat.lt_trichotomy (2 * (num % den)) den with less | half | more
  · rw [decide_eq_false (by omega), if_neg (by omega)]
    generalize decide (2 * (num % den) ≠ 0 ∧ 2 * (num % den) ≠ den) = sticky
    cases sticky <;> rfl
  · rw [decide_eq_true (by omega), decide_eq_false (by omega)]
    change num / den + num / den % 2 = _
    split <;> omega
  · rw [decide_eq_true (by omega), decide_eq_true (by omega), if_pos (by omega)]
    rfl

/-- An unpacked number with a sign and a size that needs no rounding. -/
def HasSize (s : Sign) (size : ℕ) (u : UnpackedFloat) : Prop :=
  (size = 0 ∧ u = .zero s) ∨
    ∃ m k, ∃ fits : Fits m k, u = .finite s m (k - 1074) fits.pos ∧ m * 2 ^ k = size

theorem HasSize.isNaN {s : Sign} {size : ℕ} {u : UnpackedFloat} (h : HasSize s size u) :
    u.isNaN = false := by
  rcases h with ⟨-, rfl⟩ | ⟨m, k, fits, rfl, -⟩ <;> rfl

/-- What is packed counts as what it was, unless it is beyond all doubles. -/
theorem HasSize.units {s : Sign} {size : ℕ} {u : UnpackedFloat} (h : HasSize s size u) :
    units (UnpackedFloat.unpack Format.binary64 (UnpackedFloat.pack Format.binary64 u)) =
      s.apply (min size limit : ℕ) := by
  rcases h with ⟨rfl, rfl⟩ | ⟨m, k, fits, rfl, rfl⟩
  · change Binary64.units (UnpackedFloat.unpack _ (packedZero _ s)) = _
    rw [unpack_packedZero, Nat.zero_min]
    cases s <;> rfl
  · exact units_unpack_pack s fits

theorem targetExponent_eq (m : ℕ) (e : ℤ) :
    Format.binary64.targetExponent (totalExponent m e) = max (m.log2 + e - 52) (-1074) := by
  change max ((m.log2 : ℤ) + 1 + e - 53) (-1074) = _
  omega

theorem shiftToTargetExponent_eq {m : ℕ} {e : ℤ} (a : Accuracy) (amount : ℕ)
    (h : (max (m.log2 + e - 52) (-1074) - e).toNat = amount) :
    shiftToTargetExponent Format.binary64 m e a =
      (ExtendedMantissa.ofMantissaAndAccuracy m a >>> amount, e + amount) := by
  unfold shiftToTargetExponent shiftToExponent
  dsimp only
  rw [targetExponent_eq, h]

/-- A mantissa that rounding filled up by one bit too many is shifted once more. -/
theorem hasSize_shifted (s : Sign) {n k : ℕ} (most : n ≤ 2 ^ 53) (normal : 0 < k → 2 ^ 52 ≤ n) :
    HasSize s (n * 2 ^ k)
      (if h : (shiftToTargetExponent Format.binary64 n (k - 1074) .exact).1.mantissa = 0 then .zero s
      else .finite s _ (shiftToTargetExponent Format.binary64 n (k - 1074) .exact).2
        (Nat.pos_of_ne_zero h)) := by
  rcases Nat.lt_or_eq_of_le most with less | rfl
  · have bits : n.log2 < 53 := by
      rcases Nat.eq_zero_or_pos n with rfl | some
      · decide
      · exact (Nat.log2_lt some.ne').mpr less
    rw [shiftToTargetExponent_eq .exact 0 (by omega)]
    rcases Nat.eq_zero_or_pos n with rfl | some
    · exact .inl ⟨Nat.zero_mul _, dif_pos rfl⟩
    · refine .inr ⟨n, k, ⟨some, less, normal⟩, (dif_neg some.ne').trans ?_, rfl⟩
      exact finite_eq s rfl (Int.add_zero _) _ _
  · have bits : (2 ^ 53).log2 = 53 := Nat.log2_two_pow
    have half : 2 ^ 53 / 2 ≠ 0 := by decide
    rw [shiftToTargetExponent_eq .exact 1 (by omega)]
    refine .inr ⟨2 ^ 52, k + 1, ⟨by decide, by decide, fun _ => le_rfl⟩, ?_, ?_⟩
    · refine (dif_neg half).trans (finite_eq s rfl ?_ _ _)
      omega
    · rw [Nat.pow_succ]
      omega

/-- How many bits of a fraction of units are beyond the mantissa of a double. -/
theorem spareBits_fraction (hden : 0 < den) {j c : ℕ} (enough : j ≤ c ∨ 52 ≤ (num / den).log2) :
    spareBits (num * 2 ^ j / (den * 2 ^ c)) = (num / den).log2 + j - c - 52 := by
  have high : num < 2 ^ ((num / den).log2 + 1) * den :=
    (Nat.div_lt_iff_lt_mul hden).mp Nat.lt_log2_self
  have unit : 0 < den * 2 ^ c := Nat.mul_pos hden (Nat.two_pow_pos c)
  have scale (l : ℕ) : 2 ^ l * den * 2 ^ j = 2 ^ (l + j) * den := by
    rw [Nat.mul_right_comm, ← Nat.pow_add]
  replace high : num * 2 ^ j < 2 ^ ((num / den).log2 + 1 + j) * den :=
    scale _ ▸ Nat.mul_lt_mul_of_pos_right high (Nat.two_pow_pos j)
  rcases Nat.lt_or_ge ((num / den).log2 + j) c with small | large
  · have none : num * 2 ^ j / (den * 2 ^ c) = 0 := by
      refine Nat.div_eq_of_lt (high.trans_le ?_)
      rw [Nat.mul_comm den]
      exact Nat.mul_le_mul_right _ (Nat.pow_le_pow_right (by decide) (by omega))
    rw [none]
    change 0 = _
    omega
  · rcases Nat.eq_zero_or_pos (num / den) with zero | some
    · have log : Nat.log2 0 = 0 := rfl
      rw [zero, log] at large enough ⊢
      obtain rfl : j = c := by omega
      rw [Nat.mul_div_mul_right _ _ (Nat.two_pow_pos j), zero]
      change 0 = _
      omega
    · have low : 2 ^ (num / den).log2 * den ≤ num :=
        (Nat.le_div_iff_mul_le hden).mp (Nat.log2_self_le some.ne')
      replace low : 2 ^ ((num / den).log2 + j) * den ≤ num * 2 ^ j :=
        scale _ ▸ Nat.mul_le_mul_right _ low
      obtain ⟨a, ha⟩ := Nat.exists_eq_add_of_le large
      have split (l : ℕ) : 2 ^ (c + l) * den = 2 ^ l * (den * 2 ^ c) := by
        rw [Nat.add_comm, Nat.pow_add, Nat.mul_assoc, Nat.mul_comm (2 ^ c)]
      rw [ha, split] at low
      rw [Nat.add_right_comm, ha, Nat.add_assoc, split] at high
      have least := (Nat.le_div_iff_mul_le unit).mpr low
      have bits : (num * 2 ^ j / (den * 2 ^ c)).log2 = a :=
        (Nat.log2_eq_iff ((Nat.two_pow_pos a).trans_le least).ne').mpr
          ⟨least, (Nat.div_lt_iff_lt_mul unit).mpr high⟩
      rw [spareBits, bits]
      omega

/-- A fraction that is told by a mantissa and the bits behind it is rounded to the nearest number of
units, if the mantissa has all its bits or the last of them counts as no more than one. -/
theorem roundWithAccuracy_hasSize (s : Sign) (hden : 0 < den) {j c : ℕ}
    (enough : j ≤ c ∨ 52 ≤ (num / den).log2) :
    HasSize s (nearestFraction (num * 2 ^ j) (den * 2 ^ c))
      (roundWithAccuracy Format.binary64 s (num / den) (j - c - 1074)
        (accuracyOfFraction (num % den) den)) := by
  obtain ⟨k, hk⟩ : ∃ k : ℕ, spareBits (num * 2 ^ j / (den * 2 ^ c)) = k := ⟨_, rfl⟩
  have spare := spareBits_fraction hden enough
  have unit : 0 < den * 2 ^ c := Nat.mul_pos hden (Nat.two_pow_pos c)
  have exponent : (j : ℤ) - c - 1074 + (k + c - j : ℕ) = k - 1074 := by omega
  have rounded : roundDiv num (den * 2 ^ (k + c - j)) =
      roundDiv (num * 2 ^ j) (den * 2 ^ c * 2 ^ k) := by
    have same : roundDiv (num * 2 ^ 0) (den * 2 ^ (k + c - j)) =
      roundDiv (num * 2 ^ j) (den * 2 ^ (c + k)) := roundDiv_mul_pow num den (by omega)
    rwa [Nat.pow_zero, Nat.mul_one, Nat.pow_add, ← Nat.mul_assoc] at same
  unfold roundWithAccuracy
  rw [shiftToTargetExponent_eq _ (k + c - j) (by omega), exponent]
  dsimp only
  rw [((standsFor_ofFraction hden num).shiftRight hden _).roundedMantissa
    (Nat.mul_pos hden (Nat.two_pow_pos _)), rounded, nearestFraction, hk]
  apply hasSize_shifted
  · exact hk ▸ mantissa_le unit _
  · intro some
    exact hk ▸ le_mantissa unit (hk ▸ some)

/-- A mantissa on its own is rounded as a whole number. -/
theorem roundWithAccuracy_exact (s : Sign) {j c : ℕ} (enough : j ≤ c ∨ 52 ≤ m.log2) :
    HasSize s (nearestFraction (m * 2 ^ j) (2 ^ c))
      (roundWithAccuracy Format.binary64 s m (j - c - 1074) .exact) := by
  have exact : accuracyOfFraction (m % 1) 1 = .exact := if_pos (Nat.mod_one m)
  have size : HasSize s (nearestFraction (m * 2 ^ j) (1 * 2 ^ c))
      (roundWithAccuracy Format.binary64 s (m / 1) (j - c - 1074) (accuracyOfFraction (m % 1) 1)) :=
    roundWithAccuracy_hasSize s Nat.one_pos (by rwa [Nat.div_one])
  rwa [exact, Nat.div_one, Nat.one_mul] at size

end EntityRules.Binary64
