import EntityRules.Number.Format
import Mathlib.Data.Rat.Cast.Order
import Mathlib.Tactic.FieldSimp
import Mathlib.Tactic.Ring

/-! The number that the text of a decimal stands for. -/

namespace EntityRules.Number

/-- The number that a decimal stands for. -/
def Decimal.value (d : Decimal) : ℚ := d.digits * 10 ^ (d.point - digitCount d.digits)

/-- The number that digits spell when a point stands among them, or none. -/
def positional (cs : List Char) : ℚ :=
  let whole := cs.takeWhile (· ≠ '.')
  let places := (cs.dropWhile (· ≠ '.')).drop 1
  Nat.ofDigitChars 10 (whole ++ places) 0 / 10 ^ places.length

/-- The whole number that a sign and digits spell. -/
def exponentOfText : List Char → ℤ
  | [] => 0
  | sign :: ds => if sign = '-' then -(Nat.ofDigitChars 10 ds 0 : ℤ) else Nat.ofDigitChars 10 ds 0

/-- The number that a text without a sign stands for. -/
def valueOfText (cs : List Char) : ℚ :=
  positional (cs.takeWhile (· ≠ 'e')) * 10 ^ exponentOfText ((cs.dropWhile (· ≠ 'e')).drop 1)

theorem takeWhile_ne_append {mark : Char} {cs rest : List Char} (h : mark ∉ cs) :
    (cs ++ mark :: rest).takeWhile (· ≠ mark) = cs := by
  rw [List.takeWhile_append_of_pos]
  · simp
  · intro c hc
    simpa using fun same : c = mark => h (same ▸ hc)

theorem dropWhile_ne_append {mark : Char} {cs rest : List Char} (h : mark ∉ cs) :
    (cs ++ mark :: rest).dropWhile (· ≠ mark) = mark :: rest := by
  rw [List.dropWhile_append_of_pos]
  · simp
  · intro c hc
    simpa using fun same : c = mark => h (same ▸ hc)

theorem takeWhile_ne_self {mark : Char} {cs : List Char} (h : mark ∉ cs) :
    cs.takeWhile (· ≠ mark) = cs := by
  induction cs with
  | nil => rfl
  | cons c rest ih =>
    rw [List.mem_cons, not_or] at h
    rw [List.takeWhile_cons_of_pos (by simpa using Ne.symm h.1), ih h.2]

theorem dropWhile_ne_self {mark : Char} {cs : List Char} (h : mark ∉ cs) :
    cs.dropWhile (· ≠ mark) = [] := by
  induction cs with
  | nil => rfl
  | cons c rest ih =>
    rw [List.mem_cons, not_or] at h
    rw [List.dropWhile_cons_of_pos (by simpa using Ne.symm h.1), ih h.2]

theorem positional_point {whole places : List Char} (h : '.' ∉ whole) :
    positional (whole ++ '.' :: places) =
      Nat.ofDigitChars 10 (whole ++ places) 0 / 10 ^ places.length := by
  rw [positional, takeWhile_ne_append h, dropWhile_ne_append h]
  rfl

theorem positional_whole {whole : List Char} (h : '.' ∉ whole) :
    positional whole = Nat.ofDigitChars 10 whole 0 := by
  rw [positional, takeWhile_ne_self h, dropWhile_ne_self h]
  simp

theorem valueOfText_exponent {cs exponent : List Char} (h : 'e' ∉ cs) :
    valueOfText (cs ++ 'e' :: exponent) = positional cs * 10 ^ exponentOfText exponent := by
  rw [valueOfText, takeWhile_ne_append h, dropWhile_ne_append h]
  rfl

theorem valueOfText_positional {cs : List Char} (h : 'e' ∉ cs) : valueOfText cs = positional cs := by
  rw [valueOfText, takeWhile_ne_self h, dropWhile_ne_self h]
  simp [exponentOfText]

theorem notMem_of_isDigit {c : Char} {ds : List Char} (hd : ∀ d ∈ ds, d.isDigit = true)
    (h : c.isDigit = false) : c ∉ ds := by
  intro hc
  rw [hd c hc] at h
  cases h

theorem isDigit_toDigits (n : ℕ) : ∀ c ∈ Nat.toDigits 10 n, c.isDigit = true := fun _ =>
  Nat.isDigit_of_mem_toDigits (by decide) (by decide)

theorem isDigit_zeros (n : ℕ) : ∀ c ∈ zeros n, c.isDigit = true := by
  intro c hc
  rw [zeros, List.mem_replicate] at hc
  rw [hc.2]
  decide

theorem ofDigitChars_zeros_append (n : ℕ) (ds : List Char) :
    Nat.ofDigitChars 10 (zeros n ++ ds) 0 = Nat.ofDigitChars 10 ds 0 := by
  rw [Nat.ofDigitChars_append, zeros, Nat.ofDigitChars_replicate_zero, Nat.mul_zero]

theorem ofDigitChars_append_zeros (ds : List Char) (n : ℕ) :
    Nat.ofDigitChars 10 (ds ++ zeros n) 0 = 10 ^ n * Nat.ofDigitChars 10 ds 0 := by
  rw [Nat.ofDigitChars_append, zeros, Nat.ofDigitChars_replicate_zero]

theorem exponentOfText_exponentText (e : ℤ) : exponentOfText (exponentText e) = e := by
  unfold exponentText exponentOfText
  dsimp only
  rw [ofDigitChars_zeros_append, Nat.ofDigitChars_ten_toDigits]
  by_cases h : e < 0
  · rw [if_pos h, if_pos rfl]
    omega
  · rw [if_neg h, if_neg (by decide)]
    omega

theorem digitCount_pos (n : ℕ) : 0 < digitCount n := Nat.length_toDigits_pos

theorem div_ten_pow (x : ℚ) (n : ℕ) : x / 10 ^ n = x * 10 ^ (-(n : ℤ)) := by
  rw [zpow_neg, zpow_natCast, div_eq_mul_inv]

section

variable {ds : List Char}

/-- The point stands before all digits. -/
theorem valueOfText_leading (hd : ∀ c ∈ ds, c.isDigit = true) (n : ℕ) :
    valueOfText ('0' :: '.' :: (zeros n ++ ds)) =
      Nat.ofDigitChars 10 ds 0 * 10 ^ (-(n + ds.length : ℤ)) := by
  have point : positional (['0'] ++ '.' :: (zeros n ++ ds)) = _ := positional_point (by decide)
  have spelled : Nat.ofDigitChars 10 (['0'] ++ (zeros n ++ ds)) 0 = Nat.ofDigitChars 10 ds 0 :=
    ofDigitChars_zeros_append (n + 1) ds
  have noExponent : 'e' ∉ '0' :: '.' :: (zeros n ++ ds) := by
    simp only [List.mem_cons, List.mem_append, not_or]
    exact ⟨by decide, by decide, notMem_of_isDigit (isDigit_zeros n) (by decide),
      notMem_of_isDigit hd (by decide)⟩
  rw [List.singleton_append] at point
  rw [valueOfText_positional noExponent, point, spelled, div_ten_pow]
  simp only [List.length_append, zeros, List.length_replicate, Nat.cast_add]

/-- The point stands behind all digits and some zeros. -/
theorem valueOfText_trailing (hd : ∀ c ∈ ds, c.isDigit = true) (n : ℕ) :
    valueOfText (ds ++ zeros n ++ ['.', '0']) = Nat.ofDigitChars 10 ds 0 * 10 ^ n := by
  have noPoint : '.' ∉ ds ++ zeros n := by
    rw [List.mem_append, not_or]
    exact ⟨notMem_of_isDigit hd (by decide), notMem_of_isDigit (isDigit_zeros n) (by decide)⟩
  have noExponent : 'e' ∉ ds ++ zeros n ++ ['.', '0'] := by
    rw [List.mem_append, List.mem_append, not_or, not_or]
    exact ⟨⟨notMem_of_isDigit hd (by decide), notMem_of_isDigit (isDigit_zeros n) (by decide)⟩,
      by decide⟩
  have point : positional (ds ++ zeros n ++ '.' :: ['0']) = _ := positional_point noPoint
  have spelled : Nat.ofDigitChars 10 (ds ++ zeros n ++ ['0']) 0 =
      10 ^ 1 * (10 ^ n * Nat.ofDigitChars 10 ds 0) := by
    rw [← ofDigitChars_append_zeros, ← ofDigitChars_append_zeros]
    rfl
  rw [valueOfText_positional noExponent, point, spelled]
  push_cast
  rw [List.length_singleton]
  ring

/-- The point stands among the digits. -/
theorem valueOfText_inner (hd : ∀ c ∈ ds, c.isDigit = true) {k : ℕ} (hk : k ≤ ds.length) :
    valueOfText (ds.take k ++ '.' :: ds.drop k) =
      Nat.ofDigitChars 10 ds 0 * 10 ^ (k - ds.length : ℤ) := by
  have noPoint : '.' ∉ ds.take k := fun h =>
    notMem_of_isDigit hd (by decide) (List.mem_of_mem_take h)
  have noExponent : 'e' ∉ ds.take k ++ '.' :: ds.drop k := by
    simp only [List.mem_append, List.mem_cons, not_or]
    exact ⟨fun h => notMem_of_isDigit hd (by decide) (List.mem_of_mem_take h), by decide,
      fun h => notMem_of_isDigit hd (by decide) (List.mem_of_mem_drop h)⟩
  rw [valueOfText_positional noExponent, positional_point noPoint, List.take_append_drop,
    div_ten_pow, List.length_drop]
  congr 2
  omega

/-- The point stands behind the first digit, and an exponent behind the others. -/
theorem valueOfText_scientific {c : Char} (hd : ∀ d ∈ c :: ds, d.isDigit = true) (e : ℤ) :
    valueOfText (c :: '.' :: (ds ++ 'e' :: exponentText e)) =
      Nat.ofDigitChars 10 (c :: ds) 0 * 10 ^ (e - ds.length) := by
  have noPoint : '.' ∉ [c] := by
    rw [List.mem_singleton]
    rintro rfl
    exact absurd (hd '.' List.mem_cons_self) (by decide)
  have noExponent : 'e' ∉ [c] ++ '.' :: ds := by
    rw [List.forall_mem_cons] at hd
    simp only [List.singleton_append, List.mem_cons, not_or]
    refine ⟨?_, by decide, notMem_of_isDigit hd.2 (by decide)⟩
    rintro rfl
    exact absurd hd.1 (by decide)
  have value := @valueOfText_exponent _ (exponentText e) noExponent
  rw [positional_point noPoint, exponentOfText_exponentText, div_ten_pow, mul_assoc,
    ← zpow_add₀ (by norm_num), neg_add_eq_sub] at value
  exact value

/-- One digit stands without a point. -/
theorem valueOfText_digit {c : Char} (hc : c.isDigit = true) (e : ℤ) :
    valueOfText (c :: 'e' :: exponentText e) = Nat.ofDigitChars 10 [c] 0 * 10 ^ e := by
  have other : ∀ mark : Char, mark.isDigit = false → mark ∉ [c] := fun mark =>
    notMem_of_isDigit (List.forall_mem_singleton.mpr hc)
  have value := @valueOfText_exponent _ (exponentText e) (other 'e' (by decide))
  rw [positional_whole (other '.' (by decide)), exponentOfText_exponentText] at value
  exact value

end

/-- The text of a decimal stands for its number. -/
theorem valueOfText_text (d : Decimal) (style : Style) : valueOfText (d.text style) = d.value := by
  have hd := isDigit_toDigits d.digits
  have some_ : Nat.toDigits 10 d.digits ≠ [] := Nat.toDigits_ne_nil
  have value : d.value = Nat.ofDigitChars 10 (Nat.toDigits 10 d.digits) 0 *
      10 ^ (d.point - (Nat.toDigits 10 d.digits).length) := by
    rw [Nat.ofDigitChars_ten_toDigits]
    rfl
  rw [value]
  unfold Decimal.text
  dsimp only
  generalize Nat.toDigits 10 d.digits = ds at *
  split
  · split
    · rw [valueOfText_leading hd]
      congr 2
      omega
    · next inside =>
      split
      · next longer =>
        rw [valueOfText_trailing hd, ← zpow_natCast]
        congr 2
        omega
      · next shorter =>
        rw [valueOfText_inner hd (by omega)]
        congr 2
        omega
  · match ds with
    | [] => exact absurd rfl some_
    | [c] =>
      rw [valueOfText_digit (hd c List.mem_cons_self)]
      rfl
    | c :: c' :: rest =>
      refine (valueOfText_scientific hd (d.point - 1)).trans ?_
      congr 2
      simp only [List.length_cons]
      push_cast
      ring

/-- The characters that texts of finite numbers are made of, the sign included. -/
def isNumeric (c : Char) : Bool := c.isDigit || c = '.' || c = 'e' || c = '+' || c = '-'

theorem isNumeric_of_isDigit {c : Char} (h : c.isDigit = true) : isNumeric c = true := by
  simp [isNumeric, h]

theorem isNumeric_zeros {c : Char} {n : ℕ} (h : c ∈ zeros n) : isNumeric c = true :=
  isNumeric_of_isDigit (isDigit_zeros n c h)

theorem isNumeric_exponentText {c : Char} {e : ℤ} (h : c ∈ exponentText e) : isNumeric c = true := by
  simp only [exponentText, List.mem_cons, List.mem_append] at h
  rcases h with h | h | h
  · rw [h]
    split <;> decide
  · exact isNumeric_zeros h
  · exact isNumeric_of_isDigit (isDigit_toDigits _ c h)

/-- A text begins with a digit and has a point or an exponent behind it. -/
theorem Decimal.text_eq_cons (d : Decimal) (style : Style) :
    ∃ c rest, d.text style = c :: rest ∧ c.isDigit = true ∧ (∀ c ∈ rest, isNumeric c = true) ∧
      ('.' ∈ rest ∨ 'e' ∈ rest) := by
  have all := isDigit_toDigits d.digits
  have some_ : Nat.toDigits 10 d.digits ≠ [] := Nat.toDigits_ne_nil
  unfold Decimal.text
  dsimp only
  obtain ⟨c, ds, hds⟩ := List.exists_cons_of_ne_nil some_
  rw [hds] at all ⊢
  rw [List.forall_mem_cons] at all
  have digits : ∀ c ∈ ds, isNumeric c = true := fun c hc => isNumeric_of_isDigit (all.2 c hc)
  split
  · split
    · refine ⟨'0', _, rfl, by decide, ?_, .inl List.mem_cons_self⟩
      simp only [List.forall_mem_cons, List.forall_mem_append]
      exact ⟨by decide, fun _ => isNumeric_zeros, isNumeric_of_isDigit all.1, digits⟩
    · next inside =>
      split
      · refine ⟨c, ds ++ zeros (d.point.toNat - (c :: ds).length) ++ ['.', '0'], rfl, all.1, ?_,
          .inl (by simp)⟩
        simp only [List.forall_mem_append]
        exact ⟨⟨digits, fun _ => isNumeric_zeros⟩, by simp [isNumeric]⟩
      · obtain ⟨whole, hw⟩ : ∃ n, d.point.toNat = n + 1 := ⟨d.point.toNat - 1, by omega⟩
        rw [hw, List.take_succ_cons, List.drop_succ_cons]
        refine ⟨c, ds.take whole ++ '.' :: ds.drop whole, rfl, all.1, ?_, .inl (by simp)⟩
        simp only [List.forall_mem_append, List.forall_mem_cons]
        exact ⟨fun c hc => digits c (List.mem_of_mem_take hc), by decide,
          fun c hc => digits c (List.mem_of_mem_drop hc)⟩
  · match ds with
    | [] =>
      refine ⟨c, _, rfl, all.1, ?_, .inr List.mem_cons_self⟩
      rw [List.forall_mem_cons]
      exact ⟨by decide, fun _ => isNumeric_exponentText⟩
    | c' :: rest =>
      refine ⟨c, _, rfl, all.1, ?_, .inl List.mem_cons_self⟩
      simp only [List.forall_mem_append, List.forall_mem_cons] at digits ⊢
      exact ⟨by decide, digits, by decide, fun _ => isNumeric_exponentText⟩

end EntityRules.Number
