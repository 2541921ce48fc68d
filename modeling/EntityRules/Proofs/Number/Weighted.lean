import EntityRules.Number.Scalar
import EntityRules.Proofs.Number.Exact
import EntityRules.Proofs.Number.Product
import EntityRules.Proofs.Number.Share

/-! Shares, the doubles from zero to one, and sums of them with weights. -/

namespace EntityRules.Binary64

open Float.Model Float.Model.UnpackedFloat

variable {w x y z x' y' : Float}

theorem count_zero : count 0 = 0 := rfl

theorem count_one : count 1 = oneUnits := by
  have one : (1 : Float) = .ofBits (UInt64.ofNat oneBits) := by decide
  have word : oneBits = 2 ^ 52 + 1022 * 2 ^ 52 := by decide
  have exponent : 52 + 1022 = 1074 := rfl
  have size : wordUnits oneBits = oneUnits := by
    rw [word, wordUnits_add (by decide) fun _ => le_rfl, oneUnits, ← exponent, Nat.pow_add]
  rw [one, count_ofBits (by decide), size]

theorem rounded_one : rounded oneUnits = oneUnits := by
  rw [← count_one]
  exact rounded_count (by decide)

theorem oneUnits_lt : oneUnits < limit := by
  have finite := ((@isFinite_iff_count 1 (by decide)).mp (by decide)).2
  rw [count_one] at finite
  exact Int.ofNat_lt.mp finite

theorem nonneg_iff : 0 ≤ x ↔ x.isNaN = false ∧ 0 ≤ count x := by
  constructor
  · intro h
    obtain ⟨zero, number⟩ := isNaN_of_le h
    exact ⟨number, (le_iff_count zero number).mp h⟩
  · rintro ⟨number, h⟩
    exact (le_iff_count (by decide) number).mpr h

theorem le_self (h : 0 ≤ x) : x ≤ x :=
  (le_iff_count (nonneg_iff.mp h).1 (nonneg_iff.mp h).1).mpr le_rfl

/-- What reaches the limit is rounded to it. -/
theorem rounded_of_limit_le {n : ℤ} (h : (limit : ℤ) ≤ n) : rounded n = limit := by
  have size : limit = 2 ^ 52 * 2 ^ (greatest + 1) := by
    rw [limit, Nat.pow_succ 2 greatest]
    omega
  have fits : Fits (2 ^ 52) (greatest + 1) := ⟨by decide, by decide, fun _ => le_rfl⟩
  have same : nearest limit = limit := by
    rw [size]
    exact fits.nearest_size
  have reached : limit ≤ nearest n.natAbs := same ▸ nearest_mono (by omega)
  rw [rounded, if_neg (by omega), Nat.min_eq_right reached]

theorem count_infinite (h : x.toModel.unpack = .infinity .positive) :
    x.isNaN = false ∧ count x = limit := by
  refine ⟨?_, ?_⟩
  · change x.toModel.unpack.isNaN = false
    rw [h]
    rfl
  · rw [count, h]
    rfl

/-- A number that is not negative is finite or the positive infinity. -/
theorem finite_or_infinite (h : 0 ≤ x) :
    x.isFinite = true ∨ x.toModel.unpack = .infinity .positive := by
  cases hx : x.isFinite with
  | true => exact .inl rfl
  | false => exact .inr (infinity_of_le (by decide) h hx)

/-- A number that is not negative needs no rounding, also if it is infinite. -/
theorem rounded_count_of_nonneg (h : 0 ≤ x) : rounded (count x) = count x := by
  rcases finite_or_infinite h with finite | infinite
  · exact rounded_count finite
  · rw [(count_infinite infinite).2, rounded_of_limit_le le_rfl]

theorem isFinite_of_nonneg_of_le (h : 0 ≤ x) (h' : x ≤ y) (hy : y.isFinite = true) :
    x.isFinite = true :=
  isFinite_of_le h h' (by decide) hy

theorem infinity_add {a : UnpackedFloat} (fa : a.isFinite = true) (s : Sign) :
    UnpackedFloat.add Format.binary64 (.infinity s) a = .infinity s := by
  cases a with
  | infinity t => cases fa
  | notANumber => cases fa
  | zero t => rfl
  | finite t m e hm => rfl

/-- A sum with the positive infinity in it is the positive infinity. -/
theorem unpack_add_infinite (hx : 0 ≤ x) (hy : 0 ≤ y)
    (h : x.toModel.unpack = .infinity .positive ∨ y.toModel.unpack = .infinity .positive) :
    (x + y).toModel.unpack = .infinity .positive := by
  have sum : UnpackedFloat.add Format.binary64 x.toModel.unpack y.toModel.unpack =
      .infinity .positive := by
    rcases finite_or_infinite hx with fx | infinite
    · rcases finite_or_infinite hy with fy | infinite'
      · change x.toModel.unpack.isFinite = true at fx
        change y.toModel.unpack.isFinite = true at fy
        rcases h with same | same
        · rw [same] at fx
          cases fx
        · rw [same] at fy
          cases fy
      · rw [infinite']
        exact add_infinity fx .positive
    · rcases finite_or_infinite hy with fy | infinite'
      · rw [infinite]
        exact infinity_add fy .positive
      · rw [infinite, infinite']
        rfl
  change UnpackedFloat.unpack _ (UnpackedFloat.pack _ (UnpackedFloat.add _ _ _)) = _
  rw [sum]
  exact unpack_packedInfinity .positive

/-- The sum of numbers that are not negative is rounded, also if one of them is infinite. -/
theorem count_add_of_nonneg (hx : 0 ≤ x) (hy : 0 ≤ y) :
    (x + y).isNaN = false ∧ count (x + y) = rounded (count x + count y) := by
  obtain ⟨-, least⟩ := nonneg_iff.mp hx
  obtain ⟨ny, least'⟩ := nonneg_iff.mp hy
  rcases finite_or_infinite hx with fx | infinite
  · rcases finite_or_infinite hy with fy | infinite
    · exact ⟨isNaN_add fx ny, count_add fx fy⟩
    · obtain ⟨number, size⟩ := count_infinite (unpack_add_infinite hx hy (.inr infinite))
      have most := (count_infinite infinite).2
      exact ⟨number, by rw [size, rounded_of_limit_le (by omega)]⟩
  · obtain ⟨number, size⟩ := count_infinite (unpack_add_infinite hx hy (.inl infinite))
    have most := (count_infinite infinite).2
    exact ⟨number, by rw [size, rounded_of_limit_le (by omega)]⟩

theorem add_nonneg (hx : 0 ≤ x) (hy : 0 ≤ y) : 0 ≤ x + y := by
  obtain ⟨number, size⟩ := count_add_of_nonneg hx hy
  refine nonneg_iff.mpr ⟨number, ?_⟩
  rw [size]
  exact rounded_nonneg (Int.add_nonneg (nonneg_iff.mp hx).2 (nonneg_iff.mp hy).2)

/-- Greater numbers make no lesser sum. -/
theorem add_le_add (hx : 0 ≤ x) (hy : 0 ≤ y) (h : x ≤ x') (h' : y ≤ y') : x + y ≤ x' + y' := by
  obtain ⟨number, size⟩ := count_add_of_nonneg hx hy
  obtain ⟨number', size'⟩ := count_add_of_nonneg (le_trans_of_le hx h) (le_trans_of_le hy h')
  obtain ⟨nx, nx'⟩ := isNaN_of_le h
  obtain ⟨ny, ny'⟩ := isNaN_of_le h'
  rw [le_iff_count nx nx'] at h
  rw [le_iff_count ny ny'] at h'
  rw [le_iff_count number number', size, size']
  exact rounded_mono (Int.add_le_add h h')

theorem le_add_left (hx : 0 ≤ x) (hy : 0 ≤ y) : y ≤ x + y := by
  obtain ⟨number, size⟩ := count_add_of_nonneg hx hy
  obtain ⟨-, least⟩ := nonneg_iff.mp hx
  rw [le_iff_count (nonneg_iff.mp hy).1 number, size]
  calc count y = rounded (count y) := (rounded_count_of_nonneg hy).symm
    _ ≤ rounded (count x + count y) := rounded_mono (by omega)

theorem le_add_right (hx : 0 ≤ x) (hy : 0 ≤ y) : x ≤ x + y := by
  obtain ⟨number, size⟩ := count_add_of_nonneg hx hy
  obtain ⟨-, least⟩ := nonneg_iff.mp hy
  rw [le_iff_count (nonneg_iff.mp hx).1 number, size]
  calc count x = rounded (count x) := (rounded_count_of_nonneg hx).symm
    _ ≤ rounded (count x + count y) := rounded_mono (by omega)

/-- A sum of numbers that are not negative reaches where it starts and each of its parts. -/
theorem le_foldl_add {xs : List Float} (hx : 0 ≤ x) (h : ∀ y ∈ xs, 0 ≤ y) :
    x ≤ xs.foldl (· + ·) x ∧ ∀ y ∈ xs, y ≤ xs.foldl (· + ·) x := by
  induction xs generalizing x with
  | nil => exact ⟨le_self hx, nofun⟩
  | cons y ys ih =>
    have hy : 0 ≤ y := h y List.mem_cons_self
    obtain ⟨start, rest⟩ := ih (add_nonneg hx hy) fun z hz => h z (List.mem_cons_of_mem _ hz)
    refine ⟨le_trans_of_le (le_add_right hx hy) start, ?_⟩
    intro z hz
    rcases List.mem_cons.mp hz with rfl | hz
    · exact le_trans_of_le (le_add_left hx hy) start
    · exact rest z hz

/-- A number from zero to one. -/
structure IsShare (x : Float) : Prop where
  nonneg : 0 ≤ x
  le_one : x ≤ 1

theorem IsShare.isFinite (h : IsShare x) : x.isFinite = true :=
  isFinite_of_nonneg_of_le h.nonneg h.le_one (by decide)

theorem isShare_zero : IsShare 0 := ⟨by decide, by decide⟩

theorem isShare_one : IsShare 1 := ⟨by decide, by decide⟩

theorem mul_nonneg (hw : w.isFinite = true) (least : 0 ≤ w) (h : IsShare x) : 0 ≤ w * x := by
  obtain ⟨number, size⟩ := count_mul hw h.isFinite
  refine nonneg_iff.mpr ⟨number, ?_⟩
  rw [size, ← roundedQuotient_zero oneUnits_pos]
  exact roundedQuotient_mono oneUnits_pos
    (Int.mul_nonneg (nonneg_iff.mp least).2 (nonneg_iff.mp h.nonneg).2)

/-- What is no more than a positive number is divided by it to one at most. -/
theorem div_le_one (h : x ≤ z) (hz : z.isFinite = true) (pos : 0 < count z) : x / z ≤ 1 := by
  obtain ⟨number, size⟩ := count_div hz hz pos
  have whole : ((count z).toNat : ℤ) = count z := Int.toNat_of_nonneg pos.le
  have self : count (z / z) = count 1 := by
    have units : roundedQuotient (oneUnits * (count z).toNat) (count z).toNat = rounded oneUnits :=
      roundedQuotient_mul (by omega) oneUnits
    rw [size, mul_comm, ← whole, Int.toNat_natCast, units, rounded_one, count_one]
  refine le_trans_of_le (div_le_div_right h hz pos) ?_
  rw [le_iff_count number (by decide), self]

theorem div_nonneg (h : 0 ≤ x) (hz : z.isFinite = true) (pos : 0 < count z) : 0 ≤ x / z := by
  obtain ⟨number, size⟩ := @count_div 0 z (by decide) hz pos
  have none : 0 ≤ 0 / z := by
    refine nonneg_iff.mpr ⟨number, ?_⟩
    rw [size, count_zero, zero_mul, roundedQuotient_zero (by omega)]
  exact le_trans_of_le none (div_le_div_right h hz pos)

theorem count_max (hx : x.isNaN = false) (hy : y.isNaN = false) :
    (Scalar.max x y).isNaN = false ∧ count (Scalar.max x y) = max (count x) (count y) := by
  unfold Scalar.max
  split
  · next above =>
    have above : x < y := of_decide_eq_true above
    rw [lt_iff_count hx hy] at above
    exact ⟨hy, (max_eq_right above.le).symm⟩
  · next below =>
    have below : ¬ x < y := fun h => below (decide_eq_true h)
    rw [lt_iff_count hx hy, not_lt] at below
    exact ⟨hx, (max_eq_left below).symm⟩

theorem count_min (hx : x.isNaN = false) (hy : y.isNaN = false) :
    (Scalar.min x y).isNaN = false ∧ count (Scalar.min x y) = min (count x) (count y) := by
  unfold Scalar.min
  split
  · next below =>
    have below : y < x := of_decide_eq_true below
    rw [lt_iff_count hy hx] at below
    exact ⟨hy, (min_eq_right below.le).symm⟩
  · next above =>
    have above : ¬ y < x := fun h => above (decide_eq_true h)
    rw [lt_iff_count hy hx, not_lt] at above
    exact ⟨hx, (min_eq_left above).symm⟩

/-- What is no number counts as nothing when it is kept from being negative. -/
theorem max_zero_of_isNaN (h : x.isNaN = true) : Scalar.max 0 x = 0 := by
  apply if_neg
  intro above
  have above : (0 : Float) < x := of_decide_eq_true above
  exact Bool.false_ne_true ((numbers_of_lt above).2.symm.trans h)

theorem max_zero_isShare (h : x ≤ 1) : IsShare (Scalar.max 0 x) := by
  obtain ⟨number, size⟩ := @count_max 0 x (by decide) (isNaN_of_le h).1
  have one := (le_iff_count (isNaN_of_le h).1 (by decide)).mp h
  have least : (0 : ℤ) ≤ count 1 := by decide
  refine ⟨nonneg_iff.mpr ⟨number, ?_⟩, (le_iff_count number (by decide)).mpr ?_⟩
  · rw [size, count_zero]
    exact le_max_left _ _
  · rw [size, count_zero]
    exact max_le least one

theorem max_zero_mono (h : x ≤ y) : Scalar.max 0 x ≤ Scalar.max 0 y := by
  obtain ⟨nx, ny⟩ := isNaN_of_le h
  obtain ⟨number, size⟩ := @count_max 0 x (by decide) nx
  obtain ⟨number', size'⟩ := @count_max 0 y (by decide) ny
  rw [le_iff_count nx ny] at h
  rw [le_iff_count number number', size, size']
  exact max_le_max_left _ h

/-- Whatever is brought into the range from zero to one is in it. -/
theorem clamp_isShare (x : Float) : IsShare (Scalar.clamp x) := by
  cases nx : x.isNaN with
  | true =>
    have one : Scalar.min 1 x = 1 := by
      apply if_neg
      intro below
      have below : x < 1 := of_decide_eq_true below
      exact Bool.false_ne_true ((numbers_of_lt below).1.symm.trans nx)
    change IsShare (Scalar.max 0 (Scalar.min 1 x))
    rw [one]
    exact max_zero_isShare (by decide)
  | false =>
    obtain ⟨number, size⟩ := @count_min 1 x (by decide) nx
    have most : Scalar.min 1 x ≤ 1 := by
      rw [le_iff_count number (by decide), size]
      exact min_le_left _ _
    exact max_zero_isShare most

theorem clamp_mono (h : x ≤ y) : Scalar.clamp x ≤ Scalar.clamp y := by
  obtain ⟨nx, ny⟩ := isNaN_of_le h
  obtain ⟨number, size⟩ := @count_min 1 x (by decide) nx
  obtain ⟨number', size'⟩ := @count_min 1 y (by decide) ny
  have order : Scalar.min 1 x ≤ Scalar.min 1 y := by
    rw [le_iff_count nx ny] at h
    rw [le_iff_count number number', size, size']
    exact min_le_min_left _ h
  exact max_zero_mono order

theorem scalarCount_succ (n : ℕ) : (Scalar.count (n + 1) : Float) = Scalar.count n + 1 := by
  unfold Scalar.count Scalar.sum
  rw [List.replicate_succ', List.foldl_append]
  rfl

/-- How many units there are in the first whole number that the next one is rounded to. -/
def fullUnits : ℕ := 2 ^ 53 * oneUnits

theorem fullUnits_lt : fullUnits < limit := by
  have exponents : 1074 < greatest := by decide
  unfold fullUnits oneUnits limit
  gcongr
  decide

/-- From some number on, one more thing makes no difference. -/
theorem rounded_full : rounded (fullUnits + oneUnits) = fullUnits := by
  have bits : spareBits ((2 ^ 53 + 1) * oneUnits) = 1 + 1074 := by
    rw [oneUnits, @spareBits_mul_pow (2 ^ 53 + 1) (by decide) 1074]
    decide
  have half : roundDiv (2 ^ 53 + 1) (2 ^ 1) = 2 ^ 52 := by decide
  have twice : 2 ^ 52 * 2 ^ 1 = 2 ^ 53 := by decide
  have size : nearest (fullUnits + oneUnits) = fullUnits := by
    rw [fullUnits, ← Nat.succ_mul, nearest, bits, pow_add_oneUnits,
      roundDiv_mul_right _ _ oneUnits_pos, half, ← Nat.mul_assoc, twice]
  have positive := rounded_apply .positive (fullUnits + oneUnits)
  rw [size, Nat.min_eq_left fullUnits_lt.le] at positive
  exact positive

/-- Numbers of things are finite and grow with the things, as far as doubles can tell. -/
theorem scalarCount_spec (n : ℕ) :
    (Scalar.count n : Float).isFinite = true ∧ 0 ≤ count (Scalar.count n) ∧
      count (Scalar.count n) ≤ fullUnits := by
  induction n with
  | zero => exact ⟨by decide, le_rfl, Int.natCast_nonneg _⟩
  | succ n ih =>
    obtain ⟨finite, least, most⟩ := ih
    have number : (Scalar.count (n + 1) : Float).isNaN = false := by
      rw [scalarCount_succ]
      exact isNaN_add finite (by decide)
    have size : count (Scalar.count (n + 1)) = rounded (count (Scalar.count n) + oneUnits) := by
      rw [scalarCount_succ, count_add finite (by decide), count_one]
    have least' : 0 ≤ count (Scalar.count (n + 1)) := by
      rw [size]
      exact rounded_nonneg (by omega)
    have most' : count (Scalar.count (n + 1)) ≤ fullUnits := by
      rw [size, ← rounded_full]
      exact rounded_mono (by omega)
    have room := fullUnits_lt
    exact ⟨(isFinite_iff_count number).mpr ⟨by omega, by omega⟩, least', most'⟩

theorem scalarCount_nonneg (n : ℕ) : 0 ≤ (Scalar.count n : Float) :=
  nonneg_iff.mpr ⟨isNaN_of_isFinite (scalarCount_spec n).1, (scalarCount_spec n).2.1⟩

theorem scalarCount_mono {m n : ℕ} (h : m ≤ n) : (Scalar.count m : Float) ≤ Scalar.count n := by
  have counts : Monotone fun n => count (Scalar.count n) := by
    apply monotone_nat_of_le_succ
    intro n
    obtain ⟨finite, -, -⟩ := scalarCount_spec n
    rw [scalarCount_succ, count_add finite (by decide), count_one]
    calc count (Scalar.count n) = rounded (count (Scalar.count n)) := (rounded_count finite).symm
      _ ≤ rounded (count (Scalar.count n) + oneUnits) := rounded_mono (by omega)
  rw [le_iff_count (isNaN_of_isFinite (scalarCount_spec m).1)
    (isNaN_of_isFinite (scalarCount_spec n).1)]
  exact counts h

theorem scalarCount_pos {n : ℕ} (h : 0 < n) : 0 < count (Scalar.count n) := by
  have one : (Scalar.count 1 : Float) = 1 := by decide
  have least := scalarCount_mono h
  rw [one, le_iff_count (by decide) (isNaN_of_isFinite (scalarCount_spec n).1), count_one] at least
  have unit := oneUnits_pos
  omega

end EntityRules.Binary64
