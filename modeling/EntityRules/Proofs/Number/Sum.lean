import EntityRules.Proofs.Number.Rounding

/-! The sum of two doubles is the exact sum, rounded; rounding keeps the order, so adding does. -/

namespace EntityRules.Binary64

open Float.Model Float.Model.UnpackedFloat

variable {m n k l : ℕ}

/-- What a number of units is rounded to. -/
def rounded (z : ℤ) : ℤ :=
  if z < 0 then -(min (nearest z.natAbs) limit : ℕ) else (min (nearest z.natAbs) limit : ℕ)

theorem rounded_zero : rounded 0 = 0 := by
  rw [rounded, if_neg (lt_irrefl _), Int.natAbs_zero, nearest_zero, Nat.zero_min]
  rfl

theorem rounded_mono {y z : ℤ} (h : y ≤ z) : rounded y ≤ rounded z := by
  unfold rounded
  split <;> split
  · have sizes : nearest z.natAbs ≤ nearest y.natAbs := nearest_mono (by omega)
    omega
  · omega
  · omega
  · have sizes : nearest y.natAbs ≤ nearest z.natAbs := nearest_mono (by omega)
    omega

theorem rounded_nonneg {z : ℤ} (h : 0 ≤ z) : 0 ≤ rounded z := by
  rw [← rounded_zero]
  exact rounded_mono h

theorem rounded_neg (z : ℤ) : rounded (-z) = -rounded z := by
  rcases Int.lt_trichotomy z 0 with below | rfl | above
  · rw [rounded, rounded, if_neg (by omega), if_pos below, Int.natAbs_neg, neg_neg]
  · rw [neg_zero, rounded_zero, neg_zero]
  · rw [rounded, rounded, if_pos (by omega), if_neg (by omega), Int.natAbs_neg]

theorem rounded_apply (s : Sign) (n : ℕ) :
    rounded (s.apply n) = s.apply (min (nearest n) limit : ℕ) := by
  unfold rounded
  cases s with
  | negative =>
    have size : (Sign.negative.apply (n : ℤ)).natAbs = n := by simp [Sign.apply]
    change (if -(n : ℤ) < 0 then _ else _) = -_
    rw [size]
    split
    · rfl
    · have none : n = 0 := by omega
      rw [none, nearest_zero, Nat.zero_min]
      rfl
  | positive =>
    change (if (n : ℤ) < 0 then _ else _) = _
    rw [if_neg (by omega)]
    rfl

/-- What a double stands for needs no rounding. -/
theorem Fits.nearest_size (h : Fits m k) : nearest (m * 2 ^ k) = m * 2 ^ k := by
  have room : m.log2 < 53 := (Nat.log2_lt h.pos.ne').mpr h.lt
  have spare : spareBits (m * 2 ^ k) = k := by
    rw [spareBits_mul_pow h.pos]
    rcases Nat.eq_zero_or_pos k with least | more
    · omega
    · have digits : 52 ≤ m.log2 := (Nat.le_log2 h.pos.ne').mpr (h.normal more)
      omega
  rw [nearest, spare, roundDiv_mul_self _ (Nat.two_pow_pos k)]

theorem units_packed (s : Sign) (h : Fits m k) :
    units (UnpackedFloat.unpack Format.binary64
      (UnpackedFloat.pack Format.binary64 (.finite s m (k - 1074) h.pos))) =
        rounded (s.apply (m * 2 ^ k : ℕ)) := by
  rw [units_unpack_pack s h, rounded_apply, h.nearest_size]

/-- A mantissa is brought to its exponent and rounded there. -/
theorem round_hasSize (s : Sign) (hm : 0 < m) (j : ℕ) :
    HasSize s (nearest (m * 2 ^ j)) (UnpackedFloat.round Format.binary64 s m (j - 1074)) := by
  obtain ⟨d, hd⟩ : ∃ d : ℕ, j - (m.log2 + j - 52) = d := ⟨_, rfl⟩
  have amount : ((j : ℤ) - 1074 - max ((m.log2 : ℤ) + (j - 1074) - 52) (-1074)).toNat = d := by
    omega
  have exponent : (j : ℤ) - 1074 - d = ((j - d : ℕ) : ℤ) - ((0 : ℕ) : ℤ) - 1074 := by omega
  have digits := log2_mul_pow hm d
  have size : m * 2 ^ d * 2 ^ (j - d) = m * 2 ^ j * 2 ^ 0 := by
    rw [Nat.mul_assoc, ← Nat.pow_add, Nat.pow_zero, Nat.mul_one]
    congr 2
    omega
  unfold UnpackedFloat.round decreaseExponent
  dsimp only
  rw [targetExponent_eq, amount, exponent, Nat.shiftLeft_eq,
    ← nearestFraction_mul (m * 2 ^ j) (Nat.two_pow_pos 0), ← size]
  exact roundWithAccuracy_exact s (by omega)

theorem units_round (s : Sign) (hm : 0 < m) (j : ℕ) :
    units (UnpackedFloat.unpack Format.binary64 (UnpackedFloat.pack Format.binary64
      (UnpackedFloat.round Format.binary64 s m (j - 1074)))) =
        rounded (s.apply (m * 2 ^ j : ℕ)) := by
  rw [(round_hasSize s hm j).units, rounded_apply]

theorem apply_mul (s : Sign) (m n : ℕ) : s.apply (m * n : ℕ) = s.apply m * n := by
  cases s with
  | negative => simp [Sign.apply]
  | positive => simp [Sign.apply]

/-- A sum other than zero is rounded with its own sign. -/
theorem normalize_cases (z e : ℤ) (sign : Sign) :
    (z = 0 ∧ normalize Format.binary64 z e sign = .zero sign) ∨
      ∃ s : Sign, ∃ m : ℕ, 0 < m ∧ s.apply m = z ∧
        normalize Format.binary64 z e sign = UnpackedFloat.round Format.binary64 s m e := by
  unfold UnpackedFloat.normalize
  rcases Int.lt_trichotomy z 0 with below | rfl | above
  · rw [compare_lt_iff_lt.mpr below]
    refine .inr ⟨.negative, (-z).toNat, by omega, ?_, rfl⟩
    change -((-z).toNat : ℤ) = z
    omega
  · rw [compare_eq_iff_eq.mpr rfl]
    exact .inl ⟨rfl, rfl⟩
  · rw [compare_gt_iff_gt.mpr above]
    exact .inr ⟨.positive, z.toNat, by omega, Int.toNat_of_nonneg above.le, rfl⟩

theorem units_normalize (z : ℤ) (j : ℕ) (sign : Sign) :
    units (UnpackedFloat.unpack Format.binary64 (UnpackedFloat.pack Format.binary64
      (normalize Format.binary64 z (j - 1074) sign))) = rounded (z * 2 ^ j) := by
  rcases normalize_cases z (j - 1074) sign with ⟨rfl, none⟩ | ⟨s, m, some, rfl, same⟩
  · rw [none, Int.zero_mul]
    change units (UnpackedFloat.unpack _ (packedZero _ sign)) = _
    rw [unpack_packedZero]
    exact rounded_zero.symm
  · rw [same, units_round s some, apply_mul, Nat.cast_pow, Nat.cast_ofNat]

/-- A mantissa that is shifted to a lesser exponent counts as much there. -/
theorem apply_shiftLeft (s : Sign) (m : ℕ) {j k : ℕ} (h : j ≤ k) :
    s.apply (m <<< (((k : ℤ) - 1074) - ((j : ℤ) - 1074)).toNat : ℕ) * 2 ^ j =
      s.apply (m * 2 ^ k : ℕ) := by
  have amount : (((k : ℤ) - 1074) - ((j : ℤ) - 1074)).toNat = k - j := by omega
  have power : 2 ^ (k - j) * 2 ^ j = 2 ^ k := by rw [← Nat.pow_add, Nat.sub_add_cancel h]
  rw [amount, Nat.shiftLeft_eq, ← power, ← Nat.mul_assoc, apply_mul s (m * 2 ^ (k - j)),
    Nat.cast_pow, Nat.cast_ofNat]

theorem add_finite (s t : Sign) (hm : 0 < m) (hn : 0 < n) (k l : ℕ) :
    UnpackedFloat.add Format.binary64 (.finite s m (k - 1074) hm) (.finite t n (l - 1074) hn) =
      normalize Format.binary64
        (s.apply (m <<< (((k : ℤ) - 1074) - (((min k l : ℕ) : ℤ) - 1074)).toNat : ℕ) +
          t.apply (n <<< (((l : ℤ) - 1074) - (((min k l : ℕ) : ℤ) - 1074)).toNat : ℕ))
        (((min k l : ℕ) : ℤ) - 1074) .positive := by
  have smaller : min ((k : ℤ) - 1074) (l - 1074) = ((min k l : ℕ) : ℤ) - 1074 := by omega
  unfold UnpackedFloat.add decreaseExponent
  dsimp only
  rw [smaller]

/-- The sum of numbers is the rounded sum of their units. -/
theorem units_add {a b : UnpackedFloat} (ca : IsCanonical a) (cb : IsCanonical b)
    (fa : a.isFinite = true) (fb : b.isFinite = true) :
    units (UnpackedFloat.unpack Format.binary64 (UnpackedFloat.pack Format.binary64
      (UnpackedFloat.add Format.binary64 a b))) = rounded (units a + units b) := by
  cases a with
  | infinity s => cases fa
  | notANumber => cases fa
  | zero s =>
    cases b with
    | infinity t => cases fb
    | notANumber => cases fb
    | zero t =>
      have sum : UnpackedFloat.add Format.binary64 (.zero s) (.zero t) =
          .zero (if s == t then s else .positive) := (apply_ite UnpackedFloat.zero ..).symm
      rw [sum]
      change units (UnpackedFloat.unpack _ (packedZero _ _)) = _
      rw [unpack_packedZero]
      exact rounded_zero.symm
    | finite t n f hn =>
      obtain ⟨l, rfl, -, fits⟩ := cb
      change units (UnpackedFloat.unpack _ (UnpackedFloat.pack _ (.finite t n _ hn))) =
        rounded (0 + _)
      rw [units_packed t fits, Int.zero_add, units_finite]
  | finite s m e hm =>
    obtain ⟨k, rfl, -, fits⟩ := ca
    cases b with
    | infinity t => cases fb
    | notANumber => cases fb
    | zero t =>
      change units (UnpackedFloat.unpack _ (UnpackedFloat.pack _ (.finite s m _ hm))) =
        rounded (_ + 0)
      rw [units_packed s fits, Int.add_zero, units_finite]
    | finite t n f hn =>
      obtain ⟨l, rfl, -, fits'⟩ := cb
      rw [add_finite, units_normalize, Int.add_mul, apply_shiftLeft s m (Nat.min_le_left k l),
        apply_shiftLeft t n (Nat.min_le_right k l), units_finite, units_finite]

/-- A double as a multiple of the least positive one. -/
def count (x : Float) : ℤ := units x.toModel.unpack

variable {x y z : Float}

theorem compare_eq_count (hx : x.isNaN = false) (hy : y.isNaN = false) :
    x.toModel.unpack.compare y.toModel.unpack = some (compare (count x) (count y)) :=
  compare_eq_units (isCanonical_unpack _) (isCanonical_unpack _) hx hy

theorem le_iff_compare :
    x ≤ y ↔ (x.toModel.unpack.compare y.toModel.unpack).any (·.isLE) = true := by
  change Float.le x y = true ↔ _
  exact decide_eq_true_iff

theorem lt_iff_compare : x < y ↔ x.toModel.unpack.compare y.toModel.unpack = some .lt := by
  change Float.lt x y = true ↔ _
  exact decide_eq_true_iff.trans beq_iff_eq

/-- Nothing compares with what is no number. -/
theorem isNaN_of_compare {a b : UnpackedFloat} {o : Ordering} (h : a.compare b = some o) :
    a.isNaN = false ∧ b.isNaN = false := by
  cases a with
  | notANumber => cases b <;> cases h
  | _ =>
    cases b with
    | notANumber => cases h
    | _ => exact ⟨rfl, rfl⟩

theorem isNaN_of_le (h : x ≤ y) : x.isNaN = false ∧ y.isNaN = false := by
  rw [le_iff_compare, Option.any_eq_true] at h
  obtain ⟨o, compared, -⟩ := h
  exact isNaN_of_compare compared

theorem numbers_of_lt (h : x < y) : x.isNaN = false ∧ y.isNaN = false :=
  isNaN_of_compare (lt_iff_compare.mp h)

theorem le_iff_count (hx : x.isNaN = false) (hy : y.isNaN = false) :
    x ≤ y ↔ count x ≤ count y := by
  rw [le_iff_compare, compare_eq_count hx hy]
  exact Int.isLE_compare

theorem lt_iff_count (hx : x.isNaN = false) (hy : y.isNaN = false) :
    x < y ↔ count x < count y := by
  rw [lt_iff_compare, compare_eq_count hx hy, Option.some_inj, compare_lt_iff_lt]

theorem le_trans_of_le (h : x ≤ y) (h' : y ≤ z) : x ≤ z := by
  obtain ⟨hx, hy⟩ := isNaN_of_le h
  obtain ⟨-, hz⟩ := isNaN_of_le h'
  rw [le_iff_count hx hy] at h
  rw [le_iff_count hy hz] at h'
  exact (le_iff_count hx hz).mpr (h.trans h')

/-- A double that is not reached is still to come, unless it is no number. -/
theorem not_le_iff (hy : y.isNaN = false) : ¬ x ≤ y ↔ y < x ∨ x.isNaN = true := by
  cases hx : x.isNaN with
  | false => simp [le_iff_count hx hy, lt_iff_count hy hx]
  | true =>
    refine iff_of_true (fun h => ?_) (.inr rfl)
    exact Bool.false_ne_true ((isNaN_of_le h).1.symm.trans hx)

theorem count_add (hx : x.isFinite = true) (hy : y.isFinite = true) :
    count (x + y) = rounded (count x + count y) :=
  units_add (isCanonical_unpack _) (isCanonical_unpack _) hx hy

theorem isNaN_normalize (z : ℤ) (j : ℕ) (sign : Sign) :
    (normalize Format.binary64 z (j - 1074) sign).isNaN = false := by
  rcases normalize_cases z (j - 1074) sign with ⟨-, none⟩ | ⟨s, m, some, -, same⟩
  · rw [none]
    rfl
  · rw [same]
    exact (round_hasSize s some j).isNaN

theorem add_infinity {a : UnpackedFloat} (fa : a.isFinite = true) (s : Sign) :
    UnpackedFloat.add Format.binary64 a (.infinity s) = .infinity s := by
  cases a with
  | infinity t => cases fa
  | notANumber => cases fa
  | zero t => rfl
  | finite t m e hm => rfl

theorem isNaN_add_unpacked {a b : UnpackedFloat} (ca : IsCanonical a) (cb : IsCanonical b)
    (fa : a.isFinite = true) (hb : b.isNaN = false) :
    (UnpackedFloat.add Format.binary64 a b).isNaN = false := by
  cases b with
  | notANumber => cases hb
  | infinity s => rw [add_infinity fa]; rfl
  | zero s =>
    cases a with
    | infinity t => cases fa
    | notANumber => cases fa
    | zero t => cases s <;> cases t <;> rfl
    | finite t m e hm => rfl
  | finite s n f hn =>
    cases a with
    | infinity t => cases fa
    | notANumber => cases fa
    | zero t => rfl
    | finite t m e hm =>
      obtain ⟨k, rfl, -, fits⟩ := ca
      obtain ⟨l, rfl, -, fits'⟩ := cb
      rw [add_finite]
      exact isNaN_normalize ..

/-- A finite number and one that is no non-number have a sum. -/
theorem isNaN_add (hx : x.isFinite = true) (hy : y.isNaN = false) : (x + y).isNaN = false :=
  isNaN_unpack_pack
    (isNaN_add_unpacked (isCanonical_unpack _) (isCanonical_unpack _) hx hy)

theorem isFinite_iff_count (hx : x.isNaN = false) :
    x.isFinite = true ↔ -(limit : ℤ) < count x ∧ count x < limit := by
  have top := limit_pos
  have canonical := isCanonical_unpack x.toModel.toBits.toBitVec
  change x.toModel.unpack.isNaN = false at hx
  change x.toModel.unpack.isFinite = true ↔
    -(limit : ℤ) < units x.toModel.unpack ∧ units x.toModel.unpack < limit
  change IsCanonical x.toModel.unpack at canonical
  generalize x.toModel.unpack = u at hx canonical
  cases u with
  | notANumber => cases hx
  | infinity s =>
    refine iff_of_false nofun ?_
    cases s <;> simp only [units_infinity, Sign.apply] <;> omega
  | zero s =>
    rw [units_zero]
    exact iff_of_true rfl ⟨by omega, by omega⟩
  | finite s m e hm =>
    obtain ⟨k, rfl, less, fits⟩ := canonical
    have bound := fits.size_lt less
    refine iff_of_true rfl ?_
    rw [units_finite]
    cases s <;> simp only [Sign.apply] <;> omega

theorem isFinite_of_le (h : x ≤ y) (h' : y ≤ z) (hx : x.isFinite = true) (hz : z.isFinite = true) :
    y.isFinite = true := by
  obtain ⟨nx, ny⟩ := isNaN_of_le h
  obtain ⟨-, nz⟩ := isNaN_of_le h'
  rw [isFinite_iff_count nx] at hx
  rw [isFinite_iff_count nz] at hz
  rw [le_iff_count nx ny] at h
  rw [le_iff_count ny nz] at h'
  rw [isFinite_iff_count ny]
  omega

theorem isNaN_of_isFinite (h : x.isFinite = true) : x.isNaN = false := by
  change x.toModel.unpack.isFinite = true at h
  change x.toModel.unpack.isNaN = false
  cases hu : x.toModel.unpack with
  | notANumber => rw [hu] at h; cases h
  | _ => rfl

theorem infinity_of_not_isFinite (hx : x.isNaN = false) (h : x.isFinite = false) :
    ∃ s, x.toModel.unpack = .infinity s := by
  change x.toModel.unpack.isNaN = false at hx
  change x.toModel.unpack.isFinite = false at h
  cases hu : x.toModel.unpack with
  | notANumber => rw [hu] at hx; cases hx
  | infinity s => exact ⟨s, rfl⟩
  | _ => rw [hu] at h; cases h

/-- Adding a number to finite ones keeps their order. -/
theorem add_le_add_right (h : x ≤ y) (hx : x.isFinite = true) (hy : y.isFinite = true)
    (hz : z.isNaN = false) : x + z ≤ y + z := by
  obtain ⟨nx, ny⟩ := isNaN_of_le h
  rw [le_iff_count (isNaN_add hx hz) (isNaN_add hy hz)]
  rw [le_iff_count nx ny] at h
  cases fz : z.isFinite with
  | true =>
    rw [count_add hx fz, count_add hy fz]
    exact rounded_mono (Int.add_le_add_right h _)
  | false =>
    obtain ⟨s, infinite⟩ := infinity_of_not_isFinite hz fz
    have sum : ∀ w : Float, w.isFinite = true → w + z = .ofModel (.pack (.infinity s)) := by
      intro w hw
      change Float.ofModel (.pack (UnpackedFloat.add _ w.toModel.unpack z.toModel.unpack)) = _
      rw [infinite, add_infinity hw]
    rw [sum x hx, sum y hy]

theorem isNaN_of_isNaN_add (h : (x + y).isNaN = false) : y.isNaN = false := by
  change y.toModel.unpack.isNaN = false
  change (UnpackedFloat.unpack _ (UnpackedFloat.pack _
    (UnpackedFloat.add _ x.toModel.unpack y.toModel.unpack))).isNaN = false at h
  cases hy : y.toModel.unpack with
  | notANumber =>
    have none : UnpackedFloat.add Format.binary64 x.toModel.unpack .notANumber = .notANumber := by
      cases x.toModel.unpack <;> rfl
    rw [hy, none] at h
    exact absurd h (by decide)
  | _ => rfl

/-- All numbers count as no more than infinity, on both sides of zero. -/
theorem count_bounds (hx : x.isNaN = false) : -(limit : ℤ) ≤ count x ∧ count x ≤ limit := by
  cases fx : x.isFinite with
  | true =>
    obtain ⟨low, high⟩ := (isFinite_iff_count hx).mp fx
    exact ⟨low.le, high.le⟩
  | false =>
    obtain ⟨s, infinite⟩ := infinity_of_not_isFinite hx fx
    have top := limit_pos
    rw [count, infinite]
    cases s <;> simp only [units_infinity, Sign.apply] <;> omega

/-- From a finite number on, the only infinity is the positive one. -/
theorem infinity_of_le {start : Float} (hs : start.isFinite = true) (started : start ≤ x)
    (hx : x.isFinite = false) : x.toModel.unpack = .infinity .positive := by
  obtain ⟨ns, nx⟩ := isNaN_of_le started
  obtain ⟨s, infinite⟩ := infinity_of_not_isFinite nx hx
  cases s with
  | positive => exact infinite
  | negative =>
    have low := ((isFinite_iff_count ns).mp hs).1
    have least : count x = -(limit : ℤ) := by
      rw [count, infinite]
      rfl
    rw [le_iff_count ns nx] at started
    omega

/-- A span that brings a time to no more than itself does so with every earlier time, if time did
not start at minus infinity. -/
theorem add_le_of_add_le_self {start : Float} (hs : start.isFinite = true) (started : start ≤ x)
    (h : x ≤ y) (reached : y + z ≤ y) : x + z ≤ y := by
  obtain ⟨nsum, ny⟩ := isNaN_of_le reached
  have nz := isNaN_of_isNaN_add nsum
  cases hy : y.isFinite with
  | true =>
    have hx := isFinite_of_le started h hs hy
    exact le_trans_of_le (add_le_add_right h hx hy nz) reached
  | false =>
    have last := infinity_of_le hs (le_trans_of_le started h) hy
    cases hx : x.isFinite with
    | true =>
      have most : count y = limit := by
        rw [count, last]
        rfl
      rw [le_iff_count (isNaN_add hx nz) ny, most]
      exact (count_bounds (isNaN_add hx nz)).2
    | false =>
      have same : x + z = y + z := by
        change Float.ofModel (.pack (UnpackedFloat.add _ x.toModel.unpack _)) =
          Float.ofModel (.pack (UnpackedFloat.add _ y.toModel.unpack _))
        rw [infinity_of_le hs started hx, last]
      rw [same]
      exact reached

end EntityRules.Binary64
