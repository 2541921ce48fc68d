import EntityRules.Proofs.Number.Order
import Mathlib.Tactic.Linarith

/-! Doubles as whole multiples of the least positive one. -/

namespace EntityRules.Binary64

open Float.Model Float.Model.UnpackedFloat

theorem roundDiv_eq (num den : ℕ) :
    roundDiv num den = num / den ∨ roundDiv num den = num / den + 1 := by
  unfold roundDiv
  dsimp only
  split
  · exact .inr rfl
  · exact .inl rfl

theorem roundDiv_one (n : ℕ) : roundDiv n 1 = n := by
  simp [roundDiv, Nat.mod_one]

theorem roundDiv_mul_right (num den : ℕ) {c : ℕ} (hc : 0 < c) :
    roundDiv (num * c) (den * c) = roundDiv num den := by
  unfold roundDiv
  have ties : 2 * (num % den * c) = den * c ↔ 2 * (num % den) = den := by
    rw [← Nat.mul_assoc, Nat.mul_left_inj hc.ne']
  have ups : den * c < 2 * (num % den * c) ↔ den < 2 * (num % den) := by
    rw [← Nat.mul_assoc, Nat.mul_lt_mul_right hc]
  rw [Nat.mul_div_mul_right _ _ hc, Nat.mul_mod_mul_right]
  simp only [ties, ups]

theorem roundDiv_mul_self (n : ℕ) {den : ℕ} (hden : 0 < den) : roundDiv (n * den) den = n := by
  simpa [roundDiv_one] using roundDiv_mul_right n 1 hden

theorem roundDiv_mono {num num' : ℕ} (den : ℕ) (h : num ≤ num') :
    roundDiv num den ≤ roundDiv num' den := by
  rcases Nat.lt_or_eq_of_le (Nat.div_le_div_right (c := den) h) with less | same
  · rcases roundDiv_eq num den with down | up <;> rcases roundDiv_eq num' den with down' | up' <;>
      omega
  · -- With one quotient the greater number leaves the greater remainder.
    have whole := Nat.div_add_mod num den
    have whole' := Nat.div_add_mod num' den
    rw [same] at whole
    unfold roundDiv
    dsimp only
    rw [same]
    split <;> split <;> omega

/-- How many bits of a whole number are beyond the mantissa of a double. -/
def spareBits (n : ℕ) : ℕ := n.log2 - 52

/-- A whole number rounded to the nearest one with a mantissa of 53 bits. -/
def nearest (n : ℕ) : ℕ := roundDiv n (2 ^ spareBits n) * 2 ^ spareBits n

theorem lt_of_spareBits (n : ℕ) : n < 2 ^ 53 * 2 ^ spareBits n := by
  have less : n.log2 + 1 ≤ 53 + spareBits n := by
    unfold spareBits
    omega
  calc n < 2 ^ (n.log2 + 1) := Nat.lt_log2_self
    _ ≤ 2 ^ (53 + spareBits n) := Nat.pow_le_pow_right (by decide) less
    _ = 2 ^ 53 * 2 ^ spareBits n := Nat.pow_add ..

theorem le_of_spareBits {n : ℕ} (h : 0 < spareBits n) : 2 ^ 52 * 2 ^ spareBits n ≤ n := by
  have some : n ≠ 0 := by
    rintro rfl
    simp [spareBits] at h
  have bits : 52 + spareBits n = n.log2 := by
    unfold spareBits at h ⊢
    omega
  rw [← Nat.pow_add, bits]
  exact Nat.log2_self_le some

/-- The greatest exponent of a double; exponents count from the least one. -/
def greatest : ℕ := 2045

/-- What infinity counts as: the least multiple that is beyond all doubles. -/
def limit : ℕ := 2 ^ 53 * 2 ^ greatest

/-- An unpacked number as a multiple of the least positive double. -/
def units : UnpackedFloat → ℤ
  | .infinity s => s.apply limit
  | .notANumber => 0
  | .zero _ => 0
  | .finite s m e _ => s.apply (m * 2 ^ (e + 1074).toNat : ℕ)

/-- A mantissa that goes with an exponent: the first of its 53 bits is set unless the exponent is
the least one. -/
structure Fits (m k : ℕ) : Prop where
  pos : 0 < m
  lt : m < 2 ^ 53
  normal : 0 < k → 2 ^ 52 ≤ m

/-- The unpacked numbers that doubles stand for. -/
def IsCanonical : UnpackedFloat → Prop
  | .finite _ m e _ => ∃ k : ℕ, e = k - 1074 ∧ k ≤ greatest ∧ Fits m k
  | _ => True

variable {m n k l : ℕ}

theorem limit_pos : 0 < limit := Nat.mul_pos (by decide) (Nat.two_pow_pos _)

theorem Fits.size_pos (h : Fits m k) : 0 < m * 2 ^ k := Nat.mul_pos h.pos (Nat.two_pow_pos k)

theorem Fits.size_lt (h : Fits m k) (hk : k ≤ greatest) : m * 2 ^ k < limit :=
  calc m * 2 ^ k < 2 ^ 53 * 2 ^ k := Nat.mul_lt_mul_of_pos_right h.lt (Nat.two_pow_pos k)
    _ ≤ 2 ^ 53 * 2 ^ greatest := Nat.mul_le_mul_left _ (Nat.pow_le_pow_right (by decide) hk)

theorem Fits.limit_le (h : Fits m k) (hk : greatest < k) : limit ≤ m * 2 ^ k :=
  calc 2 ^ 53 * 2 ^ greatest = 2 ^ 52 * 2 ^ (greatest + 1) := by rw [Nat.pow_succ]; omega
    _ ≤ 2 ^ 52 * 2 ^ k := Nat.mul_le_mul_left _ (Nat.pow_le_pow_right (by decide) hk)
    _ ≤ m * 2 ^ k := Nat.mul_le_mul_right _ (h.normal (by omega))

/-- A greater exponent makes a greater number, whatever the mantissas are. -/
theorem Fits.size_lt_of_lt (hm : Fits m k) (hn : Fits n l) (h : k < l) : m * 2 ^ k < n * 2 ^ l :=
  calc m * 2 ^ k < 2 ^ 53 * 2 ^ k := Nat.mul_lt_mul_of_pos_right hm.lt (Nat.two_pow_pos k)
    _ = 2 ^ 52 * 2 ^ (k + 1) := by rw [Nat.pow_succ]; omega
    _ ≤ 2 ^ 52 * 2 ^ l := Nat.mul_le_mul_left _ (Nat.pow_le_pow_right (by decide) h)
    _ ≤ n * 2 ^ l := Nat.mul_le_mul_right _ (hn.normal (by omega))

theorem Fits.compare (hm : Fits m k) (hn : Fits n l) :
    (compare ((k : ℤ) - 1074) ((l : ℤ) - 1074)).then (compare m n) =
      compare ((m * 2 ^ k : ℕ) : ℤ) ((n * 2 ^ l : ℕ) : ℤ) := by
  rcases Nat.lt_trichotomy k l with less | rfl | more
  · have sizes := hm.size_lt_of_lt hn less
    rw [compare_lt_iff_lt.mpr (by omega : (k : ℤ) - 1074 < l - 1074),
      compare_lt_iff_lt.mpr (by omega : ((m * 2 ^ k : ℕ) : ℤ) < (n * 2 ^ l : ℕ))]
    rfl
  · rw [compare_eq_iff_eq.mpr rfl]
    rcases Nat.lt_trichotomy m n with less | rfl | more
    · have sizes := Nat.mul_lt_mul_of_pos_right less (Nat.two_pow_pos k)
      rw [compare_lt_iff_lt.mpr less, compare_lt_iff_lt.mpr (Int.ofNat_lt.mpr sizes)]
      rfl
    · rw [compare_eq_iff_eq.mpr rfl, compare_eq_iff_eq.mpr rfl]
      rfl
    · have sizes := Nat.mul_lt_mul_of_pos_right more (Nat.two_pow_pos k)
      rw [compare_gt_iff_gt.mpr more, compare_gt_iff_gt.mpr (Int.ofNat_lt.mpr sizes)]
      rfl
  · have sizes := hn.size_lt_of_lt hm more
    rw [compare_gt_iff_gt.mpr (by omega : (l : ℤ) - 1074 < k - 1074),
      compare_gt_iff_gt.mpr (by omega : ((n * 2 ^ l : ℕ) : ℤ) < (m * 2 ^ k : ℕ))]
    rfl

theorem compare_neg (a b : ℤ) : compare (-a) (-b) = (compare a b).swap := by
  rcases Int.lt_trichotomy a b with less | rfl | more
  · rw [compare_lt_iff_lt.mpr less, compare_gt_iff_gt.mpr (Int.neg_lt_neg less)]
    rfl
  · rw [compare_eq_iff_eq.mpr rfl, compare_eq_iff_eq.mpr rfl]
    rfl
  · rw [compare_gt_iff_gt.mpr more, compare_lt_iff_lt.mpr (Int.neg_lt_neg more)]
    rfl

theorem units_infinity (s : Sign) : units (.infinity s) = s.apply limit := rfl

theorem units_zero (s : Sign) : units (.zero s) = 0 := rfl

theorem units_finite (s : Sign) (hm : 0 < m) (k : ℕ) :
    units (.finite s m (k - 1074) hm) = s.apply (m * 2 ^ k : ℕ) := by
  have exponent : ((k : ℤ) - 1074 + 1074).toNat = k := by omega
  change s.apply (m * 2 ^ ((k : ℤ) - 1074 + 1074).toNat : ℕ) = _
  rw [exponent]

theorem some_lt_of_lt {x y : ℤ} (h : x < y) : some Ordering.lt = some (Ord.compare x y) :=
  congrArg some (compare_lt_iff_lt.mpr h).symm

theorem some_gt_of_lt {x y : ℤ} (h : y < x) : some Ordering.gt = some (Ord.compare x y) :=
  congrArg some (compare_gt_iff_gt.mpr h).symm

theorem some_eq_self (x : ℤ) : some Ordering.eq = some (Ord.compare x x) :=
  congrArg some (compare_eq_iff_eq.mpr rfl).symm

/-- Infinity lies beyond all multiples that doubles stand for. -/
theorem compare_infinity_units (s : Sign) {b : UnpackedFloat} (cb : IsCanonical b)
    (hb : b.isNaN = false) :
    (infinity s).compare b = some (compare (units (infinity s)) (units b)) := by
  have top := limit_pos
  cases b with
  | notANumber => cases hb
  | infinity t =>
    cases s <;> cases t
    · exact some_eq_self _
    · exact some_lt_of_lt (by simp only [units_infinity, Sign.apply]; omega)
    · exact some_gt_of_lt (by simp only [units_infinity, Sign.apply]; omega)
    · exact some_eq_self _
  | zero t =>
    cases s
    · exact some_lt_of_lt (by simp only [units_infinity, units_zero, Sign.apply]; omega)
    · exact some_gt_of_lt (by simp only [units_infinity, units_zero, Sign.apply]; omega)
  | finite t n f hn =>
    obtain ⟨l, rfl, less, fits⟩ := cb
    have bound := fits.size_lt less
    rw [units_finite]
    cases s <;> cases t
    · exact some_lt_of_lt (by simp only [units_infinity, Sign.apply]; omega)
    · exact some_lt_of_lt (by simp only [units_infinity, Sign.apply]; omega)
    · exact some_gt_of_lt (by simp only [units_infinity, Sign.apply]; omega)
    · exact some_gt_of_lt (by simp only [units_infinity, Sign.apply]; omega)

theorem compare_zero_units (s : Sign) {b : UnpackedFloat} (cb : IsCanonical b)
    (hb : b.isNaN = false) :
    (zero s).compare b = some (compare (units (zero s)) (units b)) := by
  have top := limit_pos
  cases b with
  | notANumber => cases hb
  | infinity t =>
    cases t
    · exact some_gt_of_lt (by simp only [units_zero, units_infinity, Sign.apply]; omega)
    · exact some_lt_of_lt (by simp only [units_zero, units_infinity, Sign.apply]; omega)
  | zero t => exact some_eq_self _
  | finite t n f hn =>
    obtain ⟨l, rfl, less, fits⟩ := cb
    have some := fits.size_pos
    rw [units_finite]
    cases t
    · exact some_gt_of_lt (by simp only [units_zero, Sign.apply]; omega)
    · exact some_lt_of_lt (by simp only [units_zero, Sign.apply]; omega)

/-- Numbers that doubles stand for compare as whole numbers. -/
theorem compare_eq_units {a b : UnpackedFloat} (ca : IsCanonical a) (cb : IsCanonical b)
    (ha : a.isNaN = false) (hb : b.isNaN = false) :
    a.compare b = some (compare (units a) (units b)) := by
  cases a with
  | notANumber => cases ha
  | infinity s => exact compare_infinity_units s cb hb
  | zero s => exact compare_zero_units s cb hb
  | finite s m e hm =>
    obtain ⟨k, rfl, less, fits⟩ := ca
    have bound := fits.size_lt less
    have some := fits.size_pos
    rw [units_finite]
    cases b with
    | notANumber => cases hb
    | infinity t =>
      cases s <;> cases t
      · exact some_gt_of_lt (by simp only [units_infinity, Sign.apply]; omega)
      · exact some_lt_of_lt (by simp only [units_infinity, Sign.apply]; omega)
      · exact some_gt_of_lt (by simp only [units_infinity, Sign.apply]; omega)
      · exact some_lt_of_lt (by simp only [units_infinity, Sign.apply]; omega)
    | zero t =>
      cases s
      · exact some_lt_of_lt (by simp only [units_zero, Sign.apply]; omega)
      · exact some_gt_of_lt (by simp only [units_zero, Sign.apply]; omega)
    | finite t n f hn =>
      obtain ⟨l, rfl, less', fits'⟩ := cb
      have some' := fits'.size_pos
      rw [units_finite]
      cases s <;> cases t
      · exact congrArg Option.some ((congrArg _ (fits.compare fits')).trans (compare_neg _ _).symm)
      · exact some_lt_of_lt (by simp only [Sign.apply]; omega)
      · exact some_gt_of_lt (by simp only [Sign.apply]; omega)
      · exact congrArg Option.some (fits.compare fits')

theorem toNat_leading (m : BitVec 52) : (1#1 ++ m).toNat = 2 ^ 52 + m.toNat := by
  rw [BitVec.toNat_append, ← Nat.shiftLeft_add_eq_or_of_lt m.isLt]
  rfl

theorem finite_eq (s : Sign) {m n : ℕ} {e f : ℤ} (mantissa : m = n) (exponent : e = f) (hm : 0 < m)
    (hn : 0 < n) : UnpackedFloat.finite s m e hm = .finite s n f hn := by
  subst mantissa exponent
  rfl

/-- The size of a word that stands for a number: its exponent is none for the numbers without a
leading bit. -/
def wordSize (exponent : BitVec 11) (mantissa : BitVec 52) : ℕ :=
  if exponent.toNat = 0 then mantissa.toNat
  else (2 ^ 52 + mantissa.toNat) * 2 ^ (exponent.toNat - 1)

/-- A word whose exponent is not the one of infinity stands for a number. -/
theorem unpack_cases (b : BitVec Format.binary64.numBits) (other : unpackExponent b ≠ -1#_) :
    (wordSize (unpackExponent b) (unpackMantissa b) = 0 ∧
      UnpackedFloat.unpack Format.binary64 b = .zero (.ofBitVec (unpackSign b))) ∨
    ∃ m k, ∃ fits : Fits m k, k ≤ greatest ∧
      wordSize (unpackExponent b) (unpackMantissa b) = m * 2 ^ k ∧
      UnpackedFloat.unpack Format.binary64 b =
        .finite (.ofBitVec (unpackSign b)) m (k - 1074) fits.pos := by
  have mantissa : (unpackMantissa b).toNat < 2 ^ 52 := (unpackMantissa b).isLt
  have exponent : (unpackExponent b).toNat < 2 ^ 11 := (unpackExponent b).isLt
  by_cases least : unpackExponent b = 0#_
  · have none : (unpackExponent b).toNat = 0 := by
      rw [least]
      rfl
    by_cases empty : unpackMantissa b = 0#_
    · refine .inl ⟨?_, (if_neg other).trans ((if_pos least).trans (dif_pos empty))⟩
      rw [wordSize, if_pos none, empty]
      rfl
    · have some : 0 < (unpackMantissa b).toNat := by
        rw [Nat.pos_iff_ne_zero]
        intro zero
        exact empty (BitVec.eq_of_toNat_eq zero)
      refine .inr ⟨_, 0, ⟨some, by omega, by omega⟩, Nat.zero_le _, ?_, ?_⟩
      · rw [wordSize, if_pos none, Nat.pow_zero, Nat.mul_one]
      · refine (if_neg other).trans ((if_pos least).trans ((dif_neg empty).trans ?_))
        refine finite_eq _ rfl ?_ _ _
        rw [least]
        rfl
  · have some : (unpackExponent b).toNat ≠ 0 := fun zero => least (BitVec.eq_of_toNat_eq zero)
    have room : (unpackExponent b).toNat ≠ 2047 := fun all => other (BitVec.eq_of_toNat_eq all)
    refine .inr ⟨2 ^ 52 + (unpackMantissa b).toNat, (unpackExponent b).toNat - 1,
      ⟨by omega, by omega, by omega⟩, ?_, ?_, ?_⟩
    · change _ ≤ 2045
      omega
    · rw [wordSize, if_neg some]
    · refine (if_neg other).trans ((if_neg least).trans ?_)
      refine finite_eq _ (toNat_leading _) ?_ _ _
      change ((unpackExponent b).toNat : ℤ) - (1023 + 52) = _
      omega

theorem isCanonical_unpack (b : BitVec Format.binary64.numBits) :
    IsCanonical (UnpackedFloat.unpack Format.binary64 b) := by
  by_cases full : unpackExponent b = -1#_
  · by_cases empty : unpackMantissa b = 0#_
    · have infinite : UnpackedFloat.unpack Format.binary64 b = .infinity _ :=
        (if_pos full).trans (if_pos empty)
      rw [infinite]
      trivial
    · have none : UnpackedFloat.unpack Format.binary64 b = .notANumber :=
        (if_pos full).trans (if_neg empty)
      rw [none]
      trivial
  · rcases unpack_cases b full with ⟨-, zero⟩ | ⟨m, k, fits, least, -, number⟩
    · rw [zero]
      trivial
    · rw [number]
      exact ⟨k, rfl, least, fits⟩

theorem units_unpack (b : BitVec Format.binary64.numBits) (other : unpackExponent b ≠ -1#_) :
    units (UnpackedFloat.unpack Format.binary64 b) =
      (Sign.ofBitVec (unpackSign b)).apply (wordSize (unpackExponent b) (unpackMantissa b)) := by
  rcases unpack_cases b other with ⟨none, zero⟩ | ⟨m, k, fits, -, some, number⟩
  · rw [zero, none, units_zero]
    cases Sign.ofBitVec (unpackSign b) <;> rfl
  · rw [number, some, units_finite]

theorem unpackSign_packComponents (s : Sign) (e : BitVec 11) (m : BitVec 52) :
    unpackSign (packComponents Format.binary64 s e m) = s.toBitVec := by
  change (s.toBitVec ++ e ++ m).extractLsb' 63 1 = s.toBitVec
  rw [BitVec.extractLsb'_append_eq_of_le (by decide),
    BitVec.extractLsb'_append_eq_of_le (by decide)]
  cases s <;> rfl

theorem ofBitVec_toBitVec (s : Sign) : Sign.ofBitVec s.toBitVec = s := by
  cases s <;> rfl

theorem unpack_packedInfinity (s : Sign) :
    UnpackedFloat.unpack Format.binary64 (packedInfinity Format.binary64 s) = .infinity s := by
  have full : unpackExponent (packedInfinity Format.binary64 s) = -1#_ :=
    unpackExponent_packComponents
  have empty : unpackMantissa (packedInfinity Format.binary64 s) = 0#_ :=
    unpackMantissa_packComponents
  have sign : unpackSign (packedInfinity Format.binary64 s) = s.toBitVec :=
    unpackSign_packComponents s _ _
  have infinite : UnpackedFloat.unpack Format.binary64 (packedInfinity Format.binary64 s) =
      .infinity (.ofBitVec (unpackSign (packedInfinity Format.binary64 s))) :=
    (if_pos full).trans (if_pos empty)
  rw [infinite, sign, ofBitVec_toBitVec]

theorem unpack_packedZero (s : Sign) :
    UnpackedFloat.unpack Format.binary64 (packedZero Format.binary64 s) = .zero s := by
  have least : unpackExponent (packedZero Format.binary64 s) = 0#_ := unpackExponent_packComponents
  have empty : unpackMantissa (packedZero Format.binary64 s) = 0#_ := unpackMantissa_packComponents
  have sign : unpackSign (packedZero Format.binary64 s) = s.toBitVec :=
    unpackSign_packComponents s _ _
  have zero : UnpackedFloat.unpack Format.binary64 (packedZero Format.binary64 s) =
      .zero (.ofBitVec (unpackSign (packedZero Format.binary64 s))) :=
    (if_neg (least ▸ by decide)).trans ((if_pos least).trans (dif_pos empty))
  rw [zero, sign, ofBitVec_toBitVec]

theorem units_unpack_packComponents (s : Sign) (e : BitVec 11) (m : BitVec 52)
    (other : e ≠ -1#_) :
    units (UnpackedFloat.unpack Format.binary64 (packComponents Format.binary64 s e m)) =
      s.apply (wordSize e m) := by
  have exponent : unpackExponent (packComponents Format.binary64 s e m) = e :=
    unpackExponent_packComponents
  have mantissa : unpackMantissa (packComponents Format.binary64 s e m) = m :=
    unpackMantissa_packComponents
  rw [units_unpack _ (by rwa [exponent]), exponent, mantissa, unpackSign_packComponents,
    ofBitVec_toBitVec]

/-- What is packed counts as what it was, unless it is beyond all doubles. -/
theorem units_unpack_pack (s : Sign) (h : Fits m k) :
    units (UnpackedFloat.unpack Format.binary64
      (UnpackedFloat.pack Format.binary64 (.finite s m (k - 1074) h.pos))) =
        s.apply (min (m * 2 ^ k) limit : ℕ) := by
  have biased : ((k : ℤ) - 1074 + 1023 + 52).toNat = k + 1 := by omega
  have room := h.lt
  by_cases hk : k ≤ greatest
  · rw [Nat.min_eq_left (h.size_lt hk).le]
    change k ≤ 2045 at hk
    have fits : ¬ 2048 ≤ ((k : ℤ) - 1074 + 1023 + 52).toNat + 1 := by omega
    by_cases hm : 2 ^ 52 ≤ m
    · have digits : m.log2 = 52 := (Nat.log2_eq_iff h.pos.ne').mpr ⟨hm, h.lt⟩
      have packed : UnpackedFloat.pack Format.binary64 (.finite s m (k - 1074) h.pos) =
          packComponents Format.binary64 s (BitVec.ofNat 11 ((k : ℤ) - 1074 + 1023 + 52).toNat)
            (BitVec.ofNat 52 m) :=
        (if_neg fits).trans (if_pos (congrArg (· + 1) digits))
      have exponent : (BitVec.ofNat 11 (k + 1)).toNat = k + 1 := by
        rw [BitVec.toNat_ofNat]
        omega
      have mantissa : 2 ^ 52 + (BitVec.ofNat 52 m).toNat = m := by
        rw [BitVec.toNat_ofNat]
        omega
      rw [packed, biased, units_unpack_packComponents, wordSize, exponent,
        if_neg (Nat.succ_ne_zero k), mantissa, Nat.add_sub_cancel]
      intro full
      have word := exponent.symm.trans (congrArg BitVec.toNat full)
      change k + 1 = 2047 at word
      omega
    · have digits : m.log2 < 52 := (Nat.log2_lt h.pos.ne').mpr (by omega)
      have packed : UnpackedFloat.pack Format.binary64 (.finite s m (k - 1074) h.pos) =
          packComponents Format.binary64 s 0#11 (BitVec.ofNat 52 m) :=
        (if_neg fits).trans (if_neg (by change ¬ m.log2 + 1 = 53; omega))
      have least : k = 0 := by
        by_contra other
        exact hm (h.normal (by omega))
      have mantissa : (BitVec.ofNat 52 m).toNat = m := by
        rw [BitVec.toNat_ofNat]
        omega
      have zero : (0#11).toNat = 0 := rfl
      rw [packed, units_unpack_packComponents _ _ _ (by decide), wordSize, if_pos zero, mantissa,
        least, Nat.pow_zero, Nat.mul_one]
  · have packed : UnpackedFloat.pack Format.binary64 (.finite s m (k - 1074) h.pos) =
        packedInfinity Format.binary64 s := by
      refine if_pos ?_
      change ¬ k ≤ 2045 at hk
      change 2048 ≤ ((k : ℤ) - 1074 + 1023 + 52).toNat + 1
      omega
    rw [packed, unpack_packedInfinity, Nat.min_eq_right (h.limit_le (by omega))]
    rfl

end EntityRules.Binary64
