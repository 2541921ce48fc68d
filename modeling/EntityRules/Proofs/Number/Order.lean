import EntityRules.Moment
import EntityRules.Number.Scalar
import Mathlib.Data.Prod.Lex

/-! The order of double-precision numbers. -/

namespace EntityRules.Binary64

open Float.Model (UnpackedFloat)

/-- Where an unpacked number stands: first among infinities, negative numbers, zeros and positive
numbers, then by exponent and mantissa. -/
def line : UnpackedFloat → ℤ ×ₗ ℤ ×ₗ ℤ
  | .infinity .negative => toLex (-2, toLex (0, 0))
  | .finite .negative m e _ => toLex (-1, toLex (-e, -m))
  | .notANumber | .zero _ => toLex (0, toLex (0, 0))
  | .finite .positive m e _ => toLex (1, toLex (e, m))
  | .infinity .positive => toLex (2, toLex (0, 0))

/-- Where a double stands. -/
def rank (x : Float) : ℤ ×ₗ ℤ ×ₗ ℤ := line x.toModel.unpack

theorem then_compare_eq_lt (e₁ e₂ : ℤ) (m₁ m₂ : ℕ) :
    (compare e₁ e₂).then (compare m₁ m₂) = .lt ↔ e₁ < e₂ ∨ e₁ = e₂ ∧ m₁ < m₂ := by
  rw [Ordering.then_eq_lt, compare_lt_iff_lt, compare_eq_iff_eq, compare_lt_iff_lt]

theorem then_compare_eq_gt (e₁ e₂ : ℤ) (m₁ m₂ : ℕ) :
    (compare e₁ e₂).then (compare m₁ m₂) = .gt ↔ e₂ < e₁ ∨ e₁ = e₂ ∧ m₂ < m₁ := by
  rw [Ordering.then_eq_gt, compare_gt_iff_gt, compare_eq_iff_eq, compare_gt_iff_gt]

theorem toLex_lt_of_lt {k l : ℤ} {p q : ℤ ×ₗ ℤ} (h : k < l) : toLex (k, p) < toLex (l, q) :=
  Prod.Lex.toLex_lt_toLex.mpr (.inl h)

theorem not_toLex_lt_of_lt {k l : ℤ} {p q : ℤ ×ₗ ℤ} (h : l < k) : ¬ toLex (k, p) < toLex (l, q) :=
  (toLex_lt_of_lt h).asymm

theorem lt_iff_line {a b : UnpackedFloat} (ha : a.isNaN = false) (hb : b.isNaN = false) :
    a.lt b = true ↔ line a < line b := by
  cases a with
  | notANumber => cases ha
  | infinity s =>
    cases b with
    | notANumber => cases hb
    | infinity t => cases s <;> cases t <;> decide
    | zero t => cases s <;> cases t <;> decide
    | finite t m e _ =>
      cases s <;> cases t <;>
        first
        | exact iff_of_true rfl (toLex_lt_of_lt (by decide))
        | exact iff_of_false nofun (not_toLex_lt_of_lt (by decide))
  | zero s =>
    cases b with
    | notANumber => cases hb
    | infinity t => cases s <;> cases t <;> decide
    | zero t => cases s <;> cases t <;> decide
    | finite t m e _ =>
      cases t with
      | negative => exact iff_of_false nofun (not_toLex_lt_of_lt (by decide))
      | positive => exact iff_of_true rfl (toLex_lt_of_lt (by decide))
  | finite s m e _ =>
    cases b with
    | notANumber => cases hb
    | infinity t =>
      cases s <;> cases t <;>
        first
        | exact iff_of_true rfl (toLex_lt_of_lt (by decide))
        | exact iff_of_false nofun (not_toLex_lt_of_lt (by decide))
    | zero t =>
      cases s with
      | negative => exact iff_of_true rfl (toLex_lt_of_lt (by decide))
      | positive => exact iff_of_false nofun (not_toLex_lt_of_lt (by decide))
    | finite t n f _ =>
      cases s with
      | negative =>
        cases t with
        | negative =>
          change (some ((compare e f).then (compare m n)).swap == some .lt) = true ↔
            toLex ((-1 : ℤ), toLex (-e, -(m : ℤ))) < toLex (-1, toLex (-f, -(n : ℤ)))
          simp [Prod.Lex.lt_iff, then_compare_eq_gt]
        | positive => exact iff_of_true rfl (toLex_lt_of_lt (by decide))
      | positive =>
        cases t with
        | negative => exact iff_of_false nofun (not_toLex_lt_of_lt (by decide))
        | positive =>
          change (some ((compare e f).then (compare m n)) == some .lt) = true ↔
            toLex ((1 : ℤ), toLex (e, (m : ℤ))) < toLex (1, toLex (f, (n : ℤ)))
          simp [Prod.Lex.lt_iff, then_compare_eq_lt]

/-- Doubles that are numbers are ordered by their ranks. -/
theorem lt_iff_rank {x y : Float} (hx : x.isNaN = false) (hy : y.isNaN = false) :
    x < y ↔ rank x < rank y := by
  rw [rank, rank, ← lt_iff_line hx hy]
  change Float.lt x y = true ↔ _
  exact decide_eq_true_iff

theorem isNaN_of_lt {x y : Float} (h : x < y) : x.isNaN = false := by
  change Float.lt x y = true at h
  replace h : x.toModel.unpack.lt y.toModel.unpack = true := of_decide_eq_true h
  change x.toModel.unpack.isNaN = false
  cases hx : x.toModel.unpack with
  | notANumber =>
    rw [hx] at h
    cases h
  | _ => rfl

/-- What is brought into the range from zero to one is a number, whatever it was before. -/
theorem isNaN_clamp (x : Float) : (Scalar.clamp x).isNaN = false := by
  have one : (Scalar.min 1 x).isNaN = false := by
    unfold Scalar.min
    split
    · next h => exact isNaN_of_lt (of_decide_eq_true h)
    · decide
  unfold Scalar.clamp Scalar.max
  split
  · exact one
  · decide

section

open Float.Model Float.Model.UnpackedFloat

variable {spec : Format}

theorem isNaN_unpack (b : BitVec spec.numBits) :
    (UnpackedFloat.unpack spec b).isNaN = true ↔ unpackExponent b = -1#_ ∧ unpackMantissa b ≠ 0#_ := by
  by_cases full : unpackExponent b = -1#_
  · by_cases empty : unpackMantissa b = 0#_
    · have infinite : UnpackedFloat.unpack spec b = .infinity _ :=
        (if_pos full).trans (if_pos empty)
      rw [infinite]
      exact ⟨nofun, fun h => absurd empty h.2⟩
    · have none : UnpackedFloat.unpack spec b = .notANumber := (if_pos full).trans (if_neg empty)
      rw [none]
      exact ⟨fun _ => ⟨full, empty⟩, fun _ => rfl⟩
  · have number : (UnpackedFloat.unpack spec b).isNaN ≠ true := by
      by_cases least : unpackExponent b = 0#_
      · by_cases empty : unpackMantissa b = 0#_
        · have zero : UnpackedFloat.unpack spec b = .zero _ :=
            (if_neg full).trans ((if_pos least).trans (dif_pos empty))
          rw [zero]
          exact nofun
        · have small : UnpackedFloat.unpack spec b = .finite _ _ _ _ :=
            (if_neg full).trans ((if_pos least).trans (dif_neg empty))
          rw [small]
          exact nofun
      · have normal : UnpackedFloat.unpack spec b = .finite _ _ _ _ :=
          (if_neg full).trans (if_neg least)
        rw [normal]
        exact nofun
    exact ⟨fun h => absurd h number, fun h => absurd h.1 full⟩

/-- A number stays one when it is packed: at most it becomes infinite. -/
theorem isNaN_unpack_pack {u : UnpackedFloat} (h : u.isNaN = false) :
    (UnpackedFloat.unpack spec (UnpackedFloat.pack spec u)).isNaN = false := by
  rw [← Bool.not_eq_true, isNaN_unpack, not_and, not_not]
  fun_cases UnpackedFloat.pack spec u with
  | case1 => cases h
  | case2 s => simp [packedInfinity]
  | case3 s => simp [packedZero]
  | case4 s m e hm biased full => simp [packedInfinity]
  | case5 s m e hm actual biased room normal =>
    intro he
    rw [unpackExponent_packComponents, BitVec.neg_one_eq_allOnes, ← BitVec.toNat_inj] at he
    simp only [BitVec.toNat_ofNat, BitVec.toNat_allOnes] at he
    rw [Nat.mod_eq_of_lt (by omega)] at he
    omega
  | case6 s m e hm actual biased room subnormal =>
    intro he
    have some : 1 < 2 ^ spec.exponentBits := Nat.one_lt_two_pow spec.he.ne'
    rw [unpackExponent_packComponents, BitVec.neg_one_eq_allOnes, ← BitVec.toNat_inj] at he
    simp only [BitVec.toNat_ofNat, BitVec.toNat_allOnes, Nat.zero_mod] at he
    omega

/-- A word stands for a number unless its exponent is full and its mantissa is not empty. -/
theorem isNaN_ofBits {word : ℕ}
    (h : word % 18446744073709551616 / 4503599627370496 % 2048 = 2047 →
      word % 4503599627370496 = 0) :
    (Float.ofBits (UInt64.ofNat word)).isNaN = false := by
  apply @isNaN_unpack_pack Format.binary64
  rw [← Bool.not_eq_true, isNaN_unpack, not_and, not_not]
  intro he
  rw [← BitVec.toNat_inj] at he ⊢
  have full : word % 18446744073709551616 / 4503599627370496 % 2048 = 2047 := by
    simpa [unpackExponent, Nat.shiftRight_eq_div_pow] using he
  simpa [unpackMantissa] using h full

end

theorem nearestBits_le (num den : ℕ) : nearestBits num den ≤ infinityBits := by
  unfold nearestBits
  split
  · exact Nat.zero_le _
  · exact Nat.min_le_right _ _

theorem isNaN_ofFraction (negative : Bool) (num den : ℕ) :
    (ofFraction negative num den).isNaN = false := by
  have most : nearestBits num den ≤ 9218868437227405312 := nearestBits_le num den
  apply isNaN_ofBits
  intro full
  cases negative with
  | false =>
    simp only [Bool.false_eq_true, if_false] at full ⊢
    omega
  | true =>
    have sign : Nat.pow 2 63 = 9223372036854775808 := rfl
    simp only [if_true, sign] at full ⊢
    omega

theorem isNaN_ofQuotient {num den : ℤ} {x : Float} (h : ofQuotient? num den = some x) :
    x.isNaN = false := by
  unfold ofQuotient? at h
  dsimp only at h
  split at h
  · cases h
  · cases h
    exact isNaN_ofFraction _ _ _

end EntityRules.Binary64

namespace EntityRules

theorem Moment.isNaN_seconds (m : Moment) : m.seconds.isNaN = false := by
  unfold seconds
  cases h : Binary64.ofQuotient? m.instant microsPerSecond with
  | none => decide
  | some x => exact Binary64.isNaN_ofQuotient h

end EntityRules
