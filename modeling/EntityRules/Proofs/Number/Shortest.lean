import EntityRules.Proofs.Number.Decimal
import Mathlib.Tactic.Linarith

/-! The shortest decimal of a positive number rounds back to it. -/

namespace EntityRules.Number

open Binary64

theorem zpow_eq_div {b : ℚ} (hb : b ≠ 0) (k : ℤ) : b ^ k = b ^ k.toNat / b ^ (-k).toNat := by
  rw [eq_div_iff (pow_ne_zero _ hb), ← zpow_natCast, ← zpow_natCast, ← zpow_add₀ hb]
  congr 1
  omega

theorem digitCount_le {n k : ℕ} (hk : 0 < k) : digitCount n ≤ k ↔ n < 10 ^ k :=
  Nat.length_toDigits_le_iff (by decide) hk

/-- A positive whole number has as many digits as powers of ten up to it. -/
theorem pow_digitCount_le {n : ℕ} (hn : 0 < n) : 10 ^ (digitCount n - 1) ≤ n := by
  by_cases h : digitCount n = 1
  · rw [h]
    exact hn
  · have pos := digitCount_pos n
    have := @digitCount_le n (digitCount n - 1) (by omega)
    omega

theorem lt_pow_digitCount (n : ℕ) : n < 10 ^ digitCount n :=
  (digitCount_le (digitCount_pos n)).mp le_rfl

theorem digitCount_eq {n k : ℕ} (hk : 0 < k) (low : 10 ^ (k - 1) ≤ n) (high : n < 10 ^ k) :
    digitCount n = k := by
  apply le_antisymm ((digitCount_le hk).mpr high)
  by_contra fewer
  have pos := digitCount_pos n
  have := (@digitCount_le n (k - 1) (by omega)).mp (by omega)
  omega

/-- A quotient of one or more has as many digits before the point as its whole part. -/
theorem digitCount_div_spec {num den : ℕ} (hden : 0 < den) (h : den ≤ num) :
    10 ^ (digitCount (num / den) - 1) * den ≤ num ∧ num < 10 ^ digitCount (num / den) * den :=
  ⟨(Nat.le_div_iff_mul_le hden).mp (pow_digitCount_le (Nat.div_pos h hden)),
    (Nat.div_lt_iff_lt_mul hden).mp (lt_pow_digitCount _)⟩

theorem decimalPoint_of_le {num den : ℕ} (hden : 0 < den) (h : den ≤ num) :
    (10 : ℚ) ^ (decimalPoint num den - 1) ≤ num / den ∧
      (num / den : ℚ) < 10 ^ decimalPoint num den := by
  have posDen : (0 : ℚ) < den := by exact_mod_cast hden
  obtain ⟨low, high⟩ := digitCount_div_spec hden h
  have pos := digitCount_pos (num / den)
  have power : (digitCount (num / den) : ℤ) - 1 = (digitCount (num / den) - 1 : ℕ) := by omega
  rw [decimalPoint, if_pos h, power, zpow_natCast, zpow_natCast, le_div_iff₀ posDen,
    div_lt_iff₀ posDen]
  exact ⟨by exact_mod_cast low, by exact_mod_cast high⟩

/-- Below one the digits of the reciprocal count, except that a power of ten stands one place
higher. -/
theorem decimalPoint_of_lt {num den : ℕ} (hnum : 0 < num) (h : num < den) :
    (10 : ℚ) ^ (decimalPoint num den - 1) ≤ num / den ∧
      (num / den : ℚ) < 10 ^ decimalPoint num den := by
  have posNum : (0 : ℚ) < num := by exact_mod_cast hnum
  have posDen : (0 : ℚ) < den := by exact_mod_cast hnum.trans h
  obtain ⟨low, high⟩ := digitCount_div_spec hnum h.le
  have pos := digitCount_pos (den / num)
  rw [decimalPoint, if_neg (by omega)]
  dsimp only
  generalize digitCount (den / num) = c at *
  obtain ⟨c, rfl⟩ : ∃ k, c = k + 1 := ⟨c - 1, by omega⟩
  rw [Nat.add_sub_cancel] at low ⊢
  split
  · next edge =>
    have power : (2 : ℤ) - ((c + 1 : ℕ) : ℤ) = 1 - c := by omega
    have value : (num / den : ℚ) = 10 ^ (-(c : ℤ)) := by
      have edge' : (den : ℚ) = num * 10 ^ c := by exact_mod_cast edge
      rw [edge', zpow_neg, zpow_natCast]
      field_simp
    rw [value, power]
    constructor
    · apply zpow_le_zpow_right₀ (by norm_num)
      omega
    · apply zpow_lt_zpow_right₀ (by norm_num)
      omega
  · next inner =>
    have strict : 10 ^ c * num < den := by
      apply lt_of_le_of_ne low
      intro same
      apply inner
      rw [← same, Nat.mul_comm]
      rfl
    have strict' : (10 : ℚ) ^ c * num < den := by exact_mod_cast strict
    have high' : (den : ℚ) < 10 ^ (c + 1) * num := by exact_mod_cast high
    have power : (1 : ℤ) - ((c + 1 : ℕ) : ℤ) = -c := by omega
    have power' : -(c : ℤ) - 1 = -((c + 1 : ℕ) : ℤ) := by omega
    rw [power, power', zpow_neg, zpow_neg, zpow_natCast, zpow_natCast, inv_eq_one_div,
      inv_eq_one_div, div_le_div_iff₀ (by positivity) posDen,
      div_lt_div_iff₀ posDen (by positivity)]
    constructor <;> linarith

/-- The first digit of a fraction stands at its decimal point. -/
theorem decimalPoint_spec {num den : ℕ} (hnum : 0 < num) (hden : 0 < den) :
    (10 : ℚ) ^ (decimalPoint num den - 1) ≤ num / den ∧
      (num / den : ℚ) < 10 ^ decimalPoint num den := by
  rcases Nat.lt_or_ge num den with small | whole
  · exact decimalPoint_of_lt hnum small
  · exact decimalPoint_of_le hden whole

namespace Interval

/-- A fraction lies in an interval; the ends count when it is closed. -/
def Contains (i : Interval) (x : ℚ) : Prop :=
  if i.closed then (i.low / i.den : ℚ) ≤ x ∧ x ≤ i.high / i.den
  else (i.low / i.den : ℚ) < x ∧ x < i.high / i.den

/-- An interval with its numbers written on a grid of tenths. -/
def scaled (i : Interval) (unit : ℤ) : Interval :=
  { i with
    low := i.low * Nat.pow 10 (-unit).toNat
    value := i.value * Nat.pow 10 (-unit).toNat
    high := i.high * Nat.pow 10 (-unit).toNat }

/-- The distance of two points of a grid. -/
def step (i : Interval) (unit : ℤ) : ℕ := i.den * Nat.pow 10 unit.toNat

/-- The point of a grid before a number. -/
def before (i : Interval) (unit : ℤ) : ℕ := (i.scaled unit).value / i.step unit

variable {i : Interval}

theorem step_pos (hden : 0 < i.den) (unit : ℤ) : 0 < i.step unit :=
  Nat.mul_pos hden (Nat.pow_pos (by decide))

/-- What is written on a grid is measured in its units. -/
theorem scaled_div_step (hden : 0 < i.den) (unit : ℤ) (n : ℕ) :
    ((n * Nat.pow 10 (-unit).toNat : ℕ) : ℚ) / i.step unit = n / i.den / 10 ^ unit := by
  have posDen : (i.den : ℚ) ≠ 0 := by exact_mod_cast hden.ne'
  have power : ∀ k : ℕ, ((Nat.pow 10 k : ℕ) : ℚ) = 10 ^ k := fun k => by
    rw [Nat.pow_eq]
    push_cast
    rfl
  rw [step, zpow_eq_div (by norm_num), Nat.cast_mul, Nat.cast_mul, power, power]
  field_simp

theorem holds_scaled (hden : 0 < i.den) (unit : ℤ) (n : ℕ) :
    (i.scaled unit).holds (n * i.step unit) = true ↔ i.Contains (n * 10 ^ unit) := by
  have pos : (0 : ℚ) < i.step unit := by exact_mod_cast step_pos hden unit
  have power : (0 : ℚ) < 10 ^ unit := zpow_pos (by norm_num) _
  have left : ∀ m : ℕ, m * Nat.pow 10 (-unit).toNat ≤ n * i.step unit ↔
      (m / i.den : ℚ) ≤ n * 10 ^ unit := by
    intro m
    rw [← div_le_iff₀ power, ← scaled_div_step hden, div_le_iff₀ pos]
    exact_mod_cast Iff.rfl
  have right : ∀ m : ℕ, n * i.step unit ≤ m * Nat.pow 10 (-unit).toNat ↔
      n * 10 ^ unit ≤ (m / i.den : ℚ) := by
    intro m
    rw [← le_div_iff₀ power, ← scaled_div_step hden, le_div_iff₀ pos]
    exact_mod_cast Iff.rfl
  unfold holds Contains
  change (if i.closed then _ else _) = true ↔ _
  split
  · rw [decide_eq_true_eq]
    exact and_congr (left _) (right _)
  · rw [decide_eq_true_eq, ← not_le, ← not_le, ← not_le, ← not_le]
    exact and_congr (not_congr (right _)) (not_congr (left _))

/-- A number stands between two neighbours on a grid. -/
theorem before_spec (hden : 0 < i.den) (unit : ℤ) :
    i.before unit * 10 ^ unit ≤ (i.value / i.den : ℚ) ∧
      (i.value / i.den : ℚ) < (i.before unit + 1) * 10 ^ unit := by
  have pos : (0 : ℚ) < i.step unit := by exact_mod_cast step_pos hden unit
  have power : (0 : ℚ) < 10 ^ unit := zpow_pos (by norm_num) _
  have low := Nat.div_mul_le_self (i.scaled unit).value (i.step unit)
  have high := Nat.lt_div_mul_add (a := (i.scaled unit).value) (step_pos hden unit)
  rw [← le_div_iff₀ power, ← div_lt_iff₀ power, ← scaled_div_step hden, le_div_iff₀ pos,
    div_lt_iff₀ pos, add_mul, one_mul]
  exact ⟨by exact_mod_cast low, by exact_mod_cast high⟩

/-- The decimal of a point on a grid. -/
def decimalAt (digits : ℕ) (point : ℤ) (n : ℕ) : Decimal :=
  ⟨n, if digitCount n = digits + 1 then point + 1 else point⟩

theorem onGrid_eq (i : Interval) (digits : ℕ) :
    let point := decimalPoint i.value i.den
    let unit := point - digits
    let before := i.before unit
    ∃ nearer : Bool, i.onGrid digits =
      match (i.scaled unit).holds (before * i.step unit),
        (i.scaled unit).holds ((before + 1) * i.step unit) with
      | true, true => some (decimalAt digits point (if nearer then before else before + 1))
      | true, false => some (decimalAt digits point before)
      | false, true => some (decimalAt digits point (before + 1))
      | false, false => none := by
  intro point unit before
  have picked : ∀ n p, (if digitCount n = digits + 1 then some (Decimal.mk n (p + 1))
      else some ⟨n, p⟩) = some (decimalAt digits p n) := by
    intro n p
    unfold decimalAt
    split <;> rfl
  unfold onGrid
  dsimp only
  simp only [picked]
  exact ⟨_, rfl⟩

/-- A grid gives a neighbour of the number that rounds back, and nothing only if neither does. -/
theorem onGrid_cases (hden : 0 < i.den) (digits : ℕ) :
    let point := decimalPoint i.value i.den
    let unit := point - digits
    (∃ n, (n = i.before unit ∨ n = i.before unit + 1) ∧ i.Contains (n * 10 ^ unit) ∧
      i.onGrid digits = some (decimalAt digits point n)) ∨
    (i.onGrid digits = none ∧
      ∀ n, n = i.before unit ∨ n = i.before unit + 1 → ¬ i.Contains (n * 10 ^ unit)) := by
  intro point unit
  have contains := holds_scaled hden unit
  obtain ⟨nearer, same⟩ := onGrid_eq i digits
  rw [same]
  cases ha : (i.scaled unit).holds (i.before unit * i.step unit) with
  | true =>
    have below := (contains _).mp ha
    left
    cases hb : (i.scaled unit).holds ((i.before unit + 1) * i.step unit) with
    | true =>
      have above := (contains _).mp hb
      cases nearer with
      | true => exact ⟨_, .inl rfl, below, rfl⟩
      | false => exact ⟨_, .inr rfl, above, rfl⟩
    | false => exact ⟨_, .inl rfl, below, rfl⟩
  | false =>
    cases hb : (i.scaled unit).holds ((i.before unit + 1) * i.step unit) with
    | true => exact .inl ⟨_, .inr rfl, (contains _).mp hb, rfl⟩
    | false =>
      refine .inr ⟨rfl, ?_⟩
      rintro n (rfl | rfl) inside
      · rw [← contains, ha] at inside
        cases inside
      · rw [← contains, hb] at inside
        cases inside

/-- A neighbour on a grid of some digits has that many, unless it is the next power of ten. -/
theorem value_decimalAt {digits n : ℕ} (hden : 0 < i.den) (hvalue : 0 < i.value) (hd : 0 < digits)
    (hn : n = i.before (decimalPoint i.value i.den - digits) ∨
      n = i.before (decimalPoint i.value i.den - digits) + 1) :
    (decimalAt digits (decimalPoint i.value i.den) n).value =
      n * 10 ^ (decimalPoint i.value i.den - digits) := by
  obtain ⟨low, high⟩ := decimalPoint_spec hvalue hden
  obtain ⟨below, above⟩ := before_spec hden (decimalPoint i.value i.den - digits)
  generalize decimalPoint i.value i.den = point at *
  generalize i.before (point - digits) = a at *
  have power : (0 : ℚ) < 10 ^ (point - digits) := zpow_pos (by norm_num) _
  have least : 10 ^ (digits - 1) ≤ a := by
    have split_ : (10 : ℚ) ^ (point - 1) = 10 ^ (digits - 1) * 10 ^ (point - digits) := by
      rw [← zpow_natCast, ← zpow_add₀ (by norm_num)]
      congr 1
      omega
    have := lt_of_mul_lt_mul_right (split_ ▸ low.trans_lt above) power.le
    exact Nat.lt_add_one_iff.mp (by exact_mod_cast this)
  have most : a < 10 ^ digits := by
    have split_ : (10 : ℚ) ^ point = 10 ^ digits * 10 ^ (point - digits) := by
      rw [← zpow_natCast, ← zpow_add₀ (by norm_num)]
      congr 1
      omega
    have := lt_of_mul_lt_mul_right (split_ ▸ below.trans_lt high) power.le
    exact_mod_cast this
  have count : digitCount n = if n < 10 ^ digits then digits else digits + 1 := by
    split
    · next inside => exact digitCount_eq hd (by omega) inside
    · next outside =>
      have next_ : 10 ^ digits < 10 ^ (digits + 1) := Nat.pow_lt_pow_right (by decide) (by omega)
      exact digitCount_eq (by omega) (by rw [Nat.add_sub_cancel]; omega) (by omega)
  unfold Decimal.value decimalAt
  dsimp only
  rw [count]
  by_cases inside : n < 10 ^ digits
  · rw [if_pos inside, if_neg (by omega)]
  · rw [if_neg inside, if_pos rfl]
    congr 2
    push_cast
    ring

/-- The search ends on some grid if its last one has a point. -/
theorem onGrid_search {fuel digits : ℕ} (h : (i.onGrid (digits + fuel)).isSome = true) :
    ∃ k, digits ≤ k ∧ i.onGrid k = some (i.search fuel digits) := by
  induction fuel generalizing digits with
  | zero =>
    obtain ⟨d, hd⟩ := Option.isSome_iff_exists.mp h
    refine ⟨digits, le_rfl, ?_⟩
    rw [Nat.add_zero] at hd
    rw [search, hd]
    rfl
  | succ fuel ih =>
    rw [search]
    cases hd : i.onGrid digits with
    | some d => exact ⟨digits, le_rfl, hd⟩
    | none =>
      obtain ⟨k, least, found⟩ := @ih (digits + 1) (by rwa [Nat.add_right_comm] )
      exact ⟨k, by omega, found⟩

end Interval

/-- Half the distance to the neighbour below, in quarters of the unit. It is shorter where the
exponent of the neighbour is less. -/
def gapBelow (d : Expanded) : ℚ := if d.mantissa = 2 ^ 52 ∧ d.exponent ≠ -1074 then 1 else 2

/-- A number rounds to a positive one: it lies at most half way to the neighbours, and the middle
goes to an even mantissa. -/
def RoundsTo (d : Expanded) (x : ℚ) : Prop :=
  if d.mantissa % 2 = 0 then
    4 * d.mantissa - gapBelow d ≤ x / 2 ^ (d.exponent - 2) ∧
      x / 2 ^ (d.exponent - 2) ≤ 4 * d.mantissa + 2
  else
    4 * d.mantissa - gapBelow d < x / 2 ^ (d.exponent - 2) ∧
      x / 2 ^ (d.exponent - 2) < 4 * d.mantissa + 2

/-- The numbers that a double stands for have mantissas of 53 bits, the first of which is set
unless the exponent is the least one. -/
structure IsDouble (d : Expanded) : Prop where
  mantissa_lt : d.mantissa < 2 ^ 53
  least : -1074 ≤ d.exponent
  normal : d.mantissa < 2 ^ 52 → d.exponent = -1074

variable {d : Expanded}

theorem den_around_pos : 0 < (Interval.around d).den := Nat.pow_pos (by decide)

/-- The numbers of an interval are counted in quarters of the unit. -/
theorem around_scale (n : ℕ) :
    ((n * Nat.pow 2 (d.exponent - 2).toNat : ℕ) : ℚ) / (Interval.around d).den =
      n * 2 ^ (d.exponent - 2) := by
  have opposite : (2 - d.exponent).toNat = (-(d.exponent - 2)).toNat := by rw [neg_sub]
  rw [zpow_eq_div (by norm_num)]
  simp only [Interval.around, Nat.pow_eq, opposite]
  push_cast
  rw [mul_div_assoc]

theorem value_around :
    ((Interval.around d).value / (Interval.around d).den : ℚ) =
      4 * d.mantissa * 2 ^ (d.exponent - 2) := by
  have := @around_scale d (4 * d.mantissa)
  push_cast at this
  rw [← this]
  simp [Interval.around]

theorem contains_around (hm : 0 < d.mantissa) {x : ℚ} :
    (Interval.around d).Contains x ↔ RoundsTo d x := by
  have power : (0 : ℚ) < 2 ^ (d.exponent - 2) := zpow_pos (by norm_num) _
  have low : ((Interval.around d).low / (Interval.around d).den : ℚ) =
      (4 * d.mantissa - gapBelow d) * 2 ^ (d.exponent - 2) := by
    have := @around_scale d
      (4 * d.mantissa - if d.mantissa = Nat.pow 2 52 ∧ d.exponent ≠ -1074 then 1 else 2)
    refine Eq.trans this ?_
    rw [Nat.cast_sub (by split <;> omega)]
    push_cast
    rfl
  have high : ((Interval.around d).high / (Interval.around d).den : ℚ) =
      (4 * d.mantissa + 2) * 2 ^ (d.exponent - 2) := by
    have := @around_scale d (4 * d.mantissa + 2)
    push_cast at this
    rw [← this]
    simp [Interval.around]
  unfold Interval.Contains RoundsTo
  rw [low, high, le_div_iff₀ power, div_le_iff₀ power, lt_div_iff₀ power, div_lt_iff₀ power]
  simp only [Interval.around, decide_eq_true_eq]

theorem roundsTo_of_near {x : ℚ}
    (low : (4 * d.mantissa - gapBelow d) * 2 ^ (d.exponent - 2) < x)
    (high : x < (4 * d.mantissa + 2) * 2 ^ (d.exponent - 2)) : RoundsTo d x := by
  have power : (0 : ℚ) < 2 ^ (d.exponent - 2) := zpow_pos (by norm_num) _
  rw [← lt_div_iff₀ power] at low
  rw [← div_lt_iff₀ power] at high
  unfold RoundsTo
  split
  · exact ⟨low.le, high.le⟩
  · exact ⟨low, high⟩

/-- Of two neighbours on a grid of units that are this small, one is so near that it rounds to the
number between them. -/
theorem roundsTo_neighbour (hd : IsDouble d) {w : ℚ} {a : ℕ}
    (small : 10 ^ 16 * w ≤ 4 * d.mantissa * 2 ^ (d.exponent - 2))
    (below : a * w ≤ 4 * d.mantissa * 2 ^ (d.exponent - 2))
    (above : 4 * d.mantissa * 2 ^ (d.exponent - 2) < (a + 1) * w) :
    RoundsTo d (a * w) ∨ RoundsTo d ((a + 1) * w) := by
  have quarter : (0 : ℚ) < 2 ^ (d.exponent - 2) := zpow_pos (by norm_num) _
  have mantissa : (d.mantissa : ℚ) + 1 ≤ 2 ^ 53 := by exact_mod_cast hd.mantissa_lt
  have size := mul_le_mul_of_nonneg_right mantissa quarter.le
  by_cases edge : d.mantissa = 2 ^ 52
  · -- the gap below may be half as wide here, so only the neighbour above is near enough
    right
    have edge' : (d.mantissa : ℚ) = 2 ^ 52 := by exact_mod_cast edge
    have gap : 0 < gapBelow d := by unfold gapBelow; split <;> norm_num
    apply roundsTo_of_near
    · have := mul_pos gap quarter
      linarith
    · rw [edge'] at small below ⊢
      linarith
  · have gap : gapBelow d = 2 := if_neg fun h => edge h.1
    by_cases near : (4 * d.mantissa - 2) * 2 ^ (d.exponent - 2) < a * w
    · left
      apply roundsTo_of_near
      · rwa [gap]
      · linarith
    · right
      apply roundsTo_of_near
      · rw [gap]
        linarith
      · linarith

theorem value_around_pos (hm : 0 < d.mantissa) : 0 < (Interval.around d).value :=
  Nat.mul_pos (by omega) (Nat.pow_pos (by decide))

/-- A grid of seventeen digits always has a point that rounds back. -/
theorem isSome_onGrid_seventeen (hd : IsDouble d) (hm : 0 < d.mantissa) :
    ((Interval.around d).onGrid 17).isSome = true := by
  obtain ⟨first, -⟩ := decimalPoint_spec (value_around_pos hm) (@den_around_pos d)
  obtain ⟨below, above⟩ := Interval.before_spec (@den_around_pos d)
    (decimalPoint (Interval.around d).value (Interval.around d).den - (17 : ℕ))
  rcases Interval.onGrid_cases (@den_around_pos d) 17 with ⟨n, -, -, found⟩ | ⟨-, neither⟩
  · rw [found]
    rfl
  · exfalso
    generalize decimalPoint (Interval.around d).value (Interval.around d).den = point at *
    generalize (Interval.around d).before (point - (17 : ℕ)) = a at *
    have unit : (10 : ℚ) ^ (point - 1) = 10 ^ 16 * 10 ^ (point - (17 : ℕ)) := by
      rw [← zpow_natCast, ← zpow_add₀ (by norm_num)]
      congr 1
      omega
    rw [value_around] at first below above
    rw [unit] at first
    rcases roundsTo_neighbour hd first below above with near | near
    · exact neither a (.inl rfl) ((contains_around hm).mpr near)
    · refine neither (a + 1) (.inr rfl) ((contains_around hm).mpr ?_)
      push_cast
      exact near

/-- The shortest decimal of a positive number rounds back to it. -/
theorem roundsTo_shortest (hd : IsDouble d) (hm : 0 < d.mantissa) :
    RoundsTo d (shortest d).value := by
  obtain ⟨k, least, found⟩ := @Interval.onGrid_search _ 16 1 (isSome_onGrid_seventeen hd hm)
  rcases Interval.onGrid_cases (@den_around_pos d) k with ⟨n, hn, inside, same⟩ | ⟨none, -⟩
  · have shown : shortest d = _ := Option.some.inj (found.symm.trans same)
    rw [shown, Interval.value_decimalAt (@den_around_pos d) (value_around_pos hm) least hn]
    exact (contains_around hm).mp inside
  · rw [found] at none
    cases none

/-- Zeros at the end of the digits do not change the number. -/
theorem value_stripped (d : Decimal) (fuel : ℕ) : (d.stripped fuel).value = d.value := by
  induction fuel generalizing d with
  | zero => rfl
  | succ fuel ih =>
    rw [Decimal.stripped]
    split
    · next h =>
      rw [ih]
      obtain ⟨q, hq⟩ : ∃ q, d.digits = 10 * q := ⟨d.digits / 10, by omega⟩
      have count : digitCount (10 * q) = digitCount q + 1 := by
        unfold digitCount
        rw [Nat.toDigits_of_base_le (by decide) (by omega), List.length_append]
        congr 3
        omega
      unfold Decimal.value
      dsimp only
      rw [hq, count, Nat.mul_div_cancel_left q (by decide)]
      push_cast
      rw [← sub_sub, zpow_sub_one₀ (by norm_num)]
      ring
    · rfl

theorem RoundsTo.bounds {x : ℚ} (h : RoundsTo d x) :
    (4 * d.mantissa - gapBelow d) * 2 ^ (d.exponent - 2) ≤ x ∧
      x ≤ (4 * d.mantissa + 2) * 2 ^ (d.exponent - 2) := by
  have power : (0 : ℚ) < 2 ^ (d.exponent - 2) := zpow_pos (by norm_num) _
  rw [← le_div_iff₀ power, ← div_le_iff₀ power]
  unfold RoundsTo at h
  split at h
  · exact h
  · exact ⟨h.1.le, h.2.le⟩

/-- Only to an even mantissa does the middle to a neighbour round. -/
theorem RoundsTo.even {x : ℚ} (h : RoundsTo d x)
    (edge : x = (4 * d.mantissa - gapBelow d) * 2 ^ (d.exponent - 2) ∨
      x = (4 * d.mantissa + 2) * 2 ^ (d.exponent - 2)) : d.mantissa % 2 = 0 := by
  by_contra odd
  have power : (0 : ℚ) < 2 ^ (d.exponent - 2) := zpow_pos (by norm_num) _
  rw [RoundsTo, if_neg odd, lt_div_iff₀ power, div_lt_iff₀ power] at h
  rcases edge with edge | edge
  · exact h.1.ne edge.symm
  · exact h.2.ne edge

theorem gapBelow_le : gapBelow d ≤ 2 := by
  unfold gapBelow
  split <;> norm_num

/-- Of two numbers with one exponent, the one below ends where the one above begins at most. -/
theorem le_of_roundsTo {d' : Expanded} {x : ℚ} (same : d.exponent = d'.exponent)
    (h : RoundsTo d x) (h' : RoundsTo d' x) : d'.mantissa ≤ d.mantissa := by
  by_contra more
  have power : (0 : ℚ) < 2 ^ (d.exponent - 2) := zpow_pos (by norm_num) _
  have high := h.bounds.2
  have low := h'.bounds.1
  have gap := @gapBelow_le d'
  rw [← same] at low
  have order := le_of_mul_le_mul_right (low.trans high) power
  have next_ : d'.mantissa = d.mantissa + 1 := by
    have : (d'.mantissa : ℚ) ≤ d.mantissa + 1 := by linarith
    have : d'.mantissa ≤ d.mantissa + 1 := by exact_mod_cast this
    omega
  have gap' : gapBelow d' = 2 := by
    rw [next_] at order
    push_cast at order
    linarith
  have middle : (4 * d'.mantissa - gapBelow d' : ℚ) = 4 * d.mantissa + 2 := by
    rw [gap', next_]
    push_cast
    ring
  rw [middle] at low
  have even := h.even (.inr (high.antisymm low))
  have even' := h'.even (.inl (by rw [middle, ← same]; exact high.antisymm low))
  omega

theorem exponent_le_of_roundsTo {d' : Expanded} (hd : IsDouble d) (hd' : IsDouble d') {x : ℚ}
    (h : RoundsTo d x) (h' : RoundsTo d' x) : d'.exponent ≤ d.exponent := by
  by_contra more
  have power : (0 : ℚ) < 2 ^ (d.exponent - 2) := zpow_pos (by norm_num) _
  have twice : (2 : ℚ) * 2 ^ (d.exponent - 2) ≤ 2 ^ (d'.exponent - 2) := by
    rw [← zpow_one_add₀ (by norm_num)]
    exact zpow_le_zpow_right₀ (by norm_num) (by omega)
  have high := h.bounds.2
  have low := h'.bounds.1
  have inner : d'.exponent ≠ -1074 := by
    have := hd.least
    omega
  have least : (2 : ℚ) ^ 54 - 1 ≤ 4 * d'.mantissa - gapBelow d' := by
    have normal : 2 ^ 52 ≤ d'.mantissa := by
      by_contra subnormal
      exact inner (hd'.normal (by omega))
    rcases normal.eq_or_lt with first | later
    · rw [gapBelow, if_pos ⟨first.symm, inner⟩, ← first]
      norm_num
    · have more : (2 : ℚ) ^ 52 + 1 ≤ d'.mantissa := by exact_mod_cast later
      have gap := @gapBelow_le d'
      linarith
  have start : (2 ^ 55 - 2 : ℚ) * 2 ^ (d.exponent - 2) ≤ x := by
    have power' : (0 : ℚ) ≤ 2 ^ (d'.exponent - 2) := (zpow_pos (by norm_num) _).le
    have := mul_le_mul_of_nonneg_right least power'
    linarith
  -- only the last of the lesser numbers reaches that far, and its mantissa is odd
  have last : d.mantissa = 2 ^ 53 - 1 := by
    have : (2 : ℚ) ^ 53 ≤ d.mantissa + 1 := by
      have := le_of_mul_le_mul_right (start.trans high) power
      linarith
    have : 2 ^ 53 ≤ d.mantissa + 1 := by exact_mod_cast this
    have := hd.mantissa_lt
    omega
  have edge : (2 ^ 55 - 2 : ℚ) = 4 * d.mantissa + 2 := by
    rw [last]
    norm_num
  have even := h.even (.inr (high.antisymm (edge ▸ start)))
  omega

/-- A number rounds to one double only. -/
theorem eq_of_roundsTo {d' : Expanded} (hd : IsDouble d) (hd' : IsDouble d') {x : ℚ}
    (h : RoundsTo d x) (h' : RoundsTo d' x) :
    d.mantissa = d'.mantissa ∧ d.exponent = d'.exponent := by
  have same := (exponent_le_of_roundsTo hd' hd h' h).antisymm (exponent_le_of_roundsTo hd hd' h h')
  exact ⟨(le_of_roundsTo same.symm h' h).antisymm (le_of_roundsTo same h h'), same⟩

end EntityRules.Number
