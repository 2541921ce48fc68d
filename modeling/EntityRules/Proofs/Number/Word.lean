import EntityRules.Proofs.Number.Sum
import Mathlib.Order.Monotone.Basic

/-! The words of doubles. -/

namespace EntityRules.Binary64

open Float.Model Float.Model.UnpackedFloat

/-- What a word without a sign counts as. -/
def wordUnits (w : ℕ) : ℕ :=
  if w / 2 ^ 52 = 0 then w % 2 ^ 52 else (2 ^ 52 + w % 2 ^ 52) * 2 ^ (w / 2 ^ 52 - 1)

/-- Words count the more the greater they are. -/
theorem wordUnits_strictMono : StrictMono wordUnits := by
  apply strictMono_nat_of_lt_succ
  intro w
  unfold wordUnits
  by_cases last : w % 2 ^ 52 = 2 ^ 52 - 1
  · -- The mantissa is full, so the next word has the next exponent.
    have exponent : (w + 1) / 2 ^ 52 = w / 2 ^ 52 + 1 := by omega
    have mantissa : (w + 1) % 2 ^ 52 = 0 := by omega
    rw [exponent, mantissa, last, if_neg (Nat.succ_ne_zero _), Nat.add_sub_cancel]
    split
    · next none =>
      rw [none]
      omega
    · next some =>
      have twice : 2 ^ (w / 2 ^ 52) = 2 * 2 ^ (w / 2 ^ 52 - 1) := by
        rw [← Nat.pow_succ']
        congr 1
        omega
      have unit := Nat.two_pow_pos (w / 2 ^ 52 - 1)
      rw [twice]
      omega
  · have exponent : (w + 1) / 2 ^ 52 = w / 2 ^ 52 := by omega
    have mantissa : (w + 1) % 2 ^ 52 = w % 2 ^ 52 + 1 := by omega
    rw [exponent, mantissa]
    split
    · omega
    · exact Nat.mul_lt_mul_of_pos_right (by omega) (Nat.two_pow_pos _)

/-- A word counts as its mantissa times the unit of its exponent, also when rounding has filled up
the mantissa. -/
theorem wordUnits_add {m k : ℕ} (most : m ≤ 2 ^ 53) (normal : 0 < k → 2 ^ 52 ≤ m) :
    wordUnits (m + k * 2 ^ 52) = m * 2 ^ k := by
  unfold wordUnits
  rcases Nat.lt_or_ge m (2 ^ 52) with small | large
  · have least : k = 0 := by
      by_contra other
      have := normal (by omega)
      omega
    subst least
    have exponent : (m + 0 * 2 ^ 52) / 2 ^ 52 = 0 := by omega
    have mantissa : (m + 0 * 2 ^ 52) % 2 ^ 52 = m := by omega
    rw [exponent, mantissa, if_pos rfl, Nat.pow_zero, Nat.mul_one]
  · rcases Nat.lt_or_eq_of_le most with room | full
    · have exponent : (m + k * 2 ^ 52) / 2 ^ 52 = k + 1 := by omega
      have mantissa : (m + k * 2 ^ 52) % 2 ^ 52 = m - 2 ^ 52 := by omega
      rw [exponent, mantissa, if_neg (Nat.succ_ne_zero k), Nat.add_sub_cancel' large,
        Nat.add_sub_cancel]
    · subst full
      have exponent : (2 ^ 53 + k * 2 ^ 52) / 2 ^ 52 = k + 2 := by omega
      have mantissa : (2 ^ 53 + k * 2 ^ 52) % 2 ^ 52 = 0 := by omega
      rw [exponent, mantissa, if_neg (Nat.succ_ne_zero _), Nat.add_zero,
        show k + 2 - 1 = k + 1 from rfl, Nat.pow_succ 2 k]
      omega

theorem wordUnits_infinityBits : wordUnits infinityBits = limit := by
  have word : infinityBits = 2 ^ 52 + (greatest + 1) * 2 ^ 52 := rfl
  have next (k : ℕ) : 2 ^ 52 * 2 ^ (k + 1) = 2 ^ 53 * 2 ^ k := by rw [Nat.pow_succ]; omega
  rw [word, wordUnits_add (by decide) (fun _ => le_rfl), limit, next greatest]

/-- The sign of a word. -/
def signOf (negative : Bool) : Sign := if negative then .negative else .positive

/-- A word stands for its units, and that of infinity for the first multiple beyond them. -/
theorem units_word (negative : Bool) {w : ℕ} (h : w ≤ infinityBits)
    {b : BitVec Format.binary64.numBits} (word : b.toNat = w + if negative then 2 ^ 63 else 0) :
    units (UnpackedFloat.unpack Format.binary64 b) = (signOf negative).apply (wordUnits w) := by
  replace h : w ≤ 9218868437227405312 := h
  have exponent : (unpackExponent b).toNat = w / 2 ^ 52 := by
    change b.toNat >>> 52 % 2 ^ 11 = _
    rw [word, Nat.shiftRight_eq_div_pow]
    split <;> omega
  have mantissa : (unpackMantissa b).toNat = w % 2 ^ 52 := by
    change b.toNat >>> 0 % 2 ^ 52 = _
    rw [word, Nat.shiftRight_zero]
    split <;> omega
  have sign : Sign.ofBitVec (unpackSign b) = signOf negative := by
    have bit : (unpackSign b).toNat = if negative then 1 else 0 := by
      change b.toNat >>> 63 % 2 ^ 1 = _
      rw [word, Nat.shiftRight_eq_div_pow]
      split <;> omega
    have same : unpackSign b = if negative then 1#1 else 0#1 := by
      apply BitVec.eq_of_toNat_eq
      rw [bit]
      cases negative <;> rfl
    rw [same]
    cases negative <;> rfl
  by_cases full : unpackExponent b = -1#_
  · have most : (unpackExponent b).toNat = 2047 := congrArg BitVec.toNat full
    have last : w = infinityBits := by
      change w = 9218868437227405312
      omega
    have empty : unpackMantissa b = 0#_ := by
      apply BitVec.eq_of_toNat_eq
      rw [mantissa, last]
      rfl
    have infinite : UnpackedFloat.unpack Format.binary64 b = .infinity (signOf negative) :=
      (if_pos full).trans ((if_pos empty).trans (congrArg _ sign))
    rw [infinite, last, wordUnits_infinityBits, units_infinity]
  · rw [units_unpack b full, sign, wordSize, exponent, mantissa, wordUnits]

/-- What a word stands for counts the same when it is packed again. -/
theorem units_repacked (b : BitVec Format.binary64.numBits) :
    units (UnpackedFloat.unpack Format.binary64
      (UnpackedFloat.pack Format.binary64 (UnpackedFloat.unpack Format.binary64 b))) =
        units (UnpackedFloat.unpack Format.binary64 b) := by
  have canonical := isCanonical_unpack b
  generalize UnpackedFloat.unpack Format.binary64 b = u at canonical
  cases u with
  | notANumber => decide
  | infinity s => exact congrArg units (unpack_packedInfinity s)
  | zero s => exact congrArg units (unpack_packedZero s)
  | finite s m e hm =>
    obtain ⟨k, rfl, least, fits⟩ := canonical
    rw [units_unpack_pack s fits, Nat.min_eq_left (fits.size_lt least).le, units_finite]

theorem count_word (negative : Bool) {w : ℕ} (h : w ≤ infinityBits) :
    count (Float.ofBits (UInt64.ofNat (w + if negative then Nat.pow 2 63 else 0))) =
      (signOf negative).apply (wordUnits w) := by
  refine (units_repacked _).trans (units_word negative h ?_)
  replace h : w ≤ 9218868437227405312 := h
  apply Nat.mod_eq_of_lt
  change w + (if negative then 2 ^ 63 else 0) < 2 ^ 64
  split <;> omega

/-- A word that is below that of infinity stands for its units. -/
theorem count_ofBits {w : ℕ} (h : w < infinityBits) :
    count (Float.ofBits (UInt64.ofNat w)) = wordUnits w :=
  count_word false h.le

end EntityRules.Binary64
