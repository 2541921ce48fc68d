import EntityRules.Proofs.Number.Text
import EntityRules.Proofs.Number.Sum
import EntityRules.Value.Compare

/-! Zero as a whole number and as a double. -/

namespace EntityRules

namespace Binary64

open Float.Model Float.Model.UnpackedFloat

/-- The doubles that count as zero are those whose word has nothing but a sign. -/
theorem unpack_eq_zero_iff (x : Float) :
    (∃ s, x.toModel.unpack = .zero s) ↔ x.toBits.toNat % 2 ^ 63 = 0 := by
  let b : BitVec Format.binary64.numBits := x.toBits.toBitVec
  have word : b.toNat = x.toBits.toNat := rfl
  have exponent : (unpackExponent b).toNat = b.toNat / 2 ^ 52 % 2 ^ 11 := by
    change b.toNat >>> 52 % 2 ^ 11 = _
    rw [Nat.shiftRight_eq_div_pow]
  have mantissa : (unpackMantissa b).toNat = b.toNat % 2 ^ 52 := by
    change b.toNat >>> 0 % 2 ^ 52 = _
    rw [Nat.shiftRight_zero]
  change (∃ s, UnpackedFloat.unpack Format.binary64 b = .zero s) ↔ b.toNat % 2 ^ 63 = 0
  by_cases full : unpackExponent b = -1#_
  · have all : (unpackExponent b).toNat = 2047 := congrArg BitVec.toNat full
    refine iff_of_false ?_ (by omega)
    rintro ⟨s, zero⟩
    have other : UnpackedFloat.unpack Format.binary64 b =
        if unpackMantissa b = 0#_ then .infinity _ else .notANumber := if_pos full
    rw [other] at zero
    split at zero <;> cases zero
  · have size : wordSize (unpackExponent b) (unpackMantissa b) = 0 ↔ b.toNat % 2 ^ 63 = 0 := by
      rw [wordSize, exponent, mantissa]
      split
      · omega
      · next some =>
        have positive := Nat.two_pow_pos (b.toNat / 2 ^ 52 % 2 ^ 11 - 1)
        refine iff_of_false (Nat.mul_ne_zero (by omega) positive.ne') (by omega)
    rw [← size]
    rcases unpack_cases b full with ⟨none, zero⟩ | ⟨m, k, fits, -, some, number⟩
    · exact iff_of_true ⟨_, zero⟩ none
    · refine iff_of_false ?_ (some ▸ fits.size_pos.ne')
      rintro ⟨s, zero⟩
      rw [number] at zero
      cases zero

/-- Only what counts as zero equals the double zero. -/
theorem zero_beq_iff (x : Float) : (0 : Float) == x ↔ x.toBits.toNat % 2 ^ 63 = 0 := by
  rw [← unpack_eq_zero_iff]
  change ((UnpackedFloat.zero .positive).compare x.toModel.unpack == some .eq) = true ↔ _
  cases x.toModel.unpack with
  | zero s => exact iff_of_true rfl ⟨s, rfl⟩
  | finite s => cases s <;> exact iff_of_false nofun nofun
  | infinity s => cases s <;> exact iff_of_false (by decide) nofun
  | notANumber => exact iff_of_false (by decide) nofun

theorem beq_zero_comm (x : Float) : (x == 0) = ((0 : Float) == x) := by
  change (x.toModel.unpack.compare (.zero .positive) == some .eq) =
    ((UnpackedFloat.zero .positive).compare x.toModel.unpack == some .eq)
  cases x.toModel.unpack with
  | zero s => rfl
  | finite s => cases s <;> rfl
  | infinity s => cases s <;> rfl
  | notANumber => rfl

theorem numerator_eq_zero_iff (d : Expanded) : d.numerator = 0 ↔ d.mantissa = 0 := by
  have power : 2 ^ d.exponent.toNat ≠ 0 := (Nat.two_pow_pos _).ne'
  have size : d.fraction.1 = 0 ↔ d.mantissa = 0 := by
    rw [Expanded.fraction]
    exact Nat.mul_eq_zero.trans (or_iff_left power)
  rw [← size, Expanded.numerator]
  split <;> omega

/-- A double is finite, with a mantissa exactly if it does not count as zero, or not finite. -/
theorem parts_cases (x : Float) :
    (∃ d, parts x = .finite d ∧ (d.mantissa = 0 ↔ x.toBits.toNat % 2 ^ 63 = 0)) ∨
      (∀ d, parts x ≠ .finite d) ∧ x.toBits.toNat % 2 ^ 63 ≠ 0 := by
  have powers : Nat.pow 2 63 = 2 ^ 63 ∧ Nat.pow 2 52 = 2 ^ 52 ∧ Nat.pow 2 11 = 2 ^ 11 :=
    ⟨rfl, rfl, rfl⟩
  unfold parts
  rw [powers.1, powers.2.1, powers.2.2]
  dsimp only
  split
  · refine .inr ⟨?_, by omega⟩
    intro d
    split <;> nofun
  · split
    · exact .inl ⟨_, rfl, by dsimp only; omega⟩
    · exact .inl ⟨_, rfl, by dsimp only; omega⟩

/-- Only what counts as zero compares as equal to the whole number zero. -/
theorem compareInt_zero_iff (x : Float) :
    compareInt 0 x = some .eq ↔ x.toBits.toNat % 2 ^ 63 = 0 := by
  unfold compareInt
  rcases parts_cases x with ⟨d, finite, none⟩ | ⟨other, some⟩
  · rw [finite, ← none, ← numerator_eq_zero_iff]
    dsimp only
    rw [zero_mul, Option.some_inj, compare_eq_iff_eq, eq_comm]
  · refine iff_of_false ?_ some
    cases hx : parts x with
    | nan => nofun
    | infinite negative => cases negative <;> nofun
    | finite d => exact absurd hx (other d)

/-- Only the whole number zero compares as equal to what counts as zero. -/
theorem compareInt_of_zero {x : Float} {d : Expanded} (finite : parts x = .finite d)
    (none : d.mantissa = 0) (n : ℤ) : compareInt n x = some .eq ↔ n = 0 := by
  have power : ((2 ^ (-d.exponent).toNat : ℕ) : ℤ) ≠ 0 := by
    exact_mod_cast (Nat.two_pow_pos _).ne'
  rw [compareInt, finite]
  dsimp only
  rw [(numerator_eq_zero_iff d).mpr none, Option.some_inj, compare_eq_iff_eq, mul_eq_zero]
  exact or_iff_left power

end Binary64

namespace Value.Numeral

open Binary64

theorem zero_beq (x : Float) : ((0 : Float) == x) = decide (compareInt 0 x = some .eq) :=
  Bool.eq_iff_iff.mpr ((zero_beq_iff x).trans ((compareInt_zero_iff x).symm.trans
    decide_eq_true_iff.symm))

theorem compareInt_double_zero (n : ℤ) : decide (compareInt n 0 = some .eq) = decide (n = 0) := by
  have zero : parts 0 = .finite ⟨false, 0, -1074⟩ := by decide
  exact decide_eq_decide.mpr (compareInt_of_zero zero rfl n)

/-- Zero is equal to the same numbers as a double and as a whole number. -/
theorem same_double_zero (m : Numeral) : same (.double 0) m = same (.whole 0) m := by
  cases m with
  | whole n =>
    rw [same, same, compareInt_double_zero]
    exact decide_eq_decide.mpr eq_comm
  | double x => exact zero_beq x

theorem same_of_double_zero (m : Numeral) : same m (.double 0) = same m (.whole 0) := by
  cases m with
  | whole n => exact compareInt_double_zero n
  | double x => exact (beq_zero_comm x).trans (zero_beq x)

end Value.Numeral

end EntityRules
