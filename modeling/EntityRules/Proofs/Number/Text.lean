import EntityRules.Proofs.Number.Order
import EntityRules.Proofs.Number.Shortest

/-! The text of a double determines it, whatever the style of its exponents. -/

namespace EntityRules.Binary64

open Float.Model Float.Model.UnpackedFloat

theorem toBits_injective : Function.Injective Float.toBits := by
  rintro ⟨⟨a, _⟩⟩ ⟨⟨b, _⟩⟩ same
  obtain rfl : a = b := same
  rfl

/-- There is one non-number. -/
theorem toBits_of_nan {x : Float} (h : parts x = .nan) :
    x.toBits.toBitVec = packedNaN Format.binary64 := by
  obtain ⟨⟨word, valid⟩⟩ := x
  change parts ⟨⟨word, valid⟩⟩ = .nan at h
  have value : Float.toBits ⟨⟨word, valid⟩⟩ = word := rfl
  unfold parts at h
  rw [value] at h ⊢
  dsimp only at h
  split at h
  · next full =>
    split at h
    · cases h
    · next some =>
      apply valid.eq_packedNaN
      · rw [BitVec.neg_one_eq_allOnes, ← BitVec.toNat_inj]
        simpa [unpackExponent, Nat.shiftRight_eq_div_pow] using full
      · intro none
        rw [← BitVec.toNat_inj] at none
        apply some
        simpa [unpackMantissa] using none
  · split at h <;> cases h

/-- The word of the sign. -/
def signWord (negative : Bool) : ℕ := if negative then 9223372036854775808 else 0

theorem signWord_decide (p : Prop) [Decidable p] :
    signWord (decide p) = if p then 9223372036854775808 else 0 := by
  by_cases h : p <;> simp [signWord, h]

theorem toNat_of_infinite {x : Float} {negative : Bool} (h : parts x = .infinite negative) :
    x.toBits.toNat = 9218868437227405312 + signWord negative := by
  have word := x.toBits.toNat_lt
  have powers : Nat.pow 2 63 = 9223372036854775808 ∧ Nat.pow 2 52 = 4503599627370496 ∧
      Nat.pow 2 11 = 2048 := ⟨rfl, rfl, rfl⟩
  unfold parts at h
  rw [powers.1, powers.2.1, powers.2.2] at h
  dsimp only at h
  split at h
  · split at h
    · cases h
      rw [signWord_decide]
      split <;> omega
    · cases h
  · split at h <;> cases h

theorem toNat_of_finite {x : Float} {d : Expanded} (h : parts x = .finite d) :
    x.toBits.toNat = signWord d.negative +
      if d.mantissa < 4503599627370496 then d.mantissa
      else d.mantissa + (d.exponent + 1074).toNat * 4503599627370496 := by
  have word := x.toBits.toNat_lt
  have powers : Nat.pow 2 63 = 9223372036854775808 ∧ Nat.pow 2 52 = 4503599627370496 ∧
      Nat.pow 2 11 = 2048 := ⟨rfl, rfl, rfl⟩
  unfold parts at h
  rw [powers.1, powers.2.1, powers.2.2] at h
  dsimp only at h
  split at h
  · split at h <;> cases h
  · split at h
    · cases h
      dsimp only
      rw [signWord_decide, if_pos (Nat.mod_lt _ (by decide))]
      split <;> omega
    · cases h
      dsimp only
      rw [signWord_decide, @if_neg (4503599627370496 + _ < 4503599627370496) _ (by omega)]
      split <;> omega

/-- A double is known by its parts. -/
theorem parts_injective : Function.Injective parts := by
  intro x y same
  apply toBits_injective
  cases hx : parts x with
  | nan => rw [← UInt64.toBitVec_inj, toBits_of_nan hx, toBits_of_nan (same ▸ hx)]
  | infinite negative =>
    rw [← UInt64.toNat_inj, toNat_of_infinite hx, toNat_of_infinite (same ▸ hx)]
  | finite d => rw [← UInt64.toNat_inj, toNat_of_finite hx, toNat_of_finite (same ▸ hx)]

theorem isDouble_of_finite {x : Float} {d : Expanded} (h : parts x = .finite d) :
    Number.IsDouble d := by
  have powers : Nat.pow 2 52 = 4503599627370496 ∧ Nat.pow 2 11 = 2048 := ⟨rfl, rfl⟩
  unfold parts at h
  rw [powers.1, powers.2] at h
  dsimp only at h
  split at h
  · split at h <;> cases h
  · split at h <;> cases h
    · constructor <;> dsimp only <;> omega
    · constructor <;> dsimp only <;> omega

end EntityRules.Binary64

namespace EntityRules.Number

open Binary64

def isNegative : Parts → Bool
  | .nan => false
  | .infinite negative => negative
  | .finite d => d.negative

/-- The text of a number in a document, without its sign. -/
def sizeText : Parts → List Char
  | .nan => ['N', 'a', 'N']
  | .infinite _ => ['I', 'n', 'f', 'i', 'n', 'i', 't', 'y']
  | .finite d =>
    if d.mantissa = 0 then ['0', '.', '0'] else ((shortest d).stripped 17).text document

theorem toList_text (x : Float) :
    (text document x).toList =
      if isNegative (parts x) then '-' :: sizeText (parts x) else sizeText (parts x) := by
  unfold text isNegative sizeText
  cases parts x with
  | nan => rfl
  | infinite negative => cases negative <;> rfl
  | finite d =>
    dsimp only
    split <;> rw [signed, String.toList_ofList]

/-- The text of a finite size begins with a digit and stands for the size, up to rounding. -/
theorem sizeText_finite (d : Expanded) :
    ∃ c rest, sizeText (.finite d) = c :: rest ∧ c.isDigit = true ∧
      (∀ c ∈ rest, isNumeric c = true) ∧ ('.' ∈ rest ∨ 'e' ∈ rest) := by
  unfold sizeText
  dsimp only
  split
  · exact ⟨'0', ['.', '0'], rfl, by decide, by simp [isNumeric], .inl (by decide)⟩
  · exact Decimal.text_eq_cons _ _

theorem sizeText_finite_ne {d : Expanded} {c : Char} (h : c.isDigit = false) (rest : List Char) :
    sizeText (.finite d) ≠ c :: rest := by
  obtain ⟨c', rest', shape, digit, -, -⟩ := sizeText_finite d
  intro other
  obtain ⟨rfl, -⟩ := List.cons.inj (shape.symm.trans other)
  rw [h] at digit
  cases digit

/-- No text of a size begins with a sign. -/
theorem sizeText_ne_minus (p : Parts) (rest : List Char) : sizeText p ≠ '-' :: rest := by
  cases p with
  | nan => simp [sizeText]
  | infinite negative => simp [sizeText]
  | finite d => exact sizeText_finite_ne (by decide) rest

/-- The size that a text of a positive number stands for rounds back to the number. -/
theorem roundsTo_sizeText {d : Expanded} (hd : IsDouble d) (hm : d.mantissa ≠ 0) :
    RoundsTo d (valueOfText (sizeText (.finite d))) := by
  have shape : sizeText (.finite d) = _ := if_neg hm
  rw [shape, valueOfText_text, value_stripped]
  exact roundsTo_shortest hd (Nat.pos_of_ne_zero hm)

theorem RoundsTo.pos {d : Expanded} {x : ℚ} (hm : d.mantissa ≠ 0) (h : RoundsTo d x) : 0 < x := by
  have least : (1 : ℚ) ≤ d.mantissa := by exact_mod_cast Nat.one_le_iff_ne_zero.mpr hm
  have gap := @gapBelow_le d
  refine lt_of_lt_of_le ?_ h.bounds.1
  exact mul_pos (by linarith) (zpow_pos (by norm_num) _)

/-- Sizes with one text are the same. -/
theorem eq_of_sizeText_finite {d d' : Expanded} (hd : IsDouble d) (hd' : IsDouble d')
    (same : sizeText (.finite d) = sizeText (.finite d')) :
    d.mantissa = d'.mantissa ∧ d.exponent = d'.exponent := by
  have zero : valueOfText ['0', '.', '0'] = 0 := by
    have : valueOfText (['0'] ++ '.' :: ['0']) = _ :=
      (valueOfText_positional (by decide)).trans (positional_point (by decide))
    have none : Nat.ofDigitChars 10 (['0'] ++ ['0']) 0 = 0 := rfl
    rw [none, Nat.cast_zero, zero_div] at this
    exact this
  by_cases hm : d.mantissa = 0
  · by_cases hm' : d'.mantissa = 0
    · refine ⟨hm.trans hm'.symm, ?_⟩
      rw [hd.normal (by omega), hd'.normal (by omega)]
    · have rounds := roundsTo_sizeText hd' hm'
      rw [← same, sizeText, if_pos hm, zero] at rounds
      exact absurd (rounds.pos hm') (lt_irrefl 0)
  · have rounds := roundsTo_sizeText hd hm
    by_cases hm' : d'.mantissa = 0
    · rw [same, sizeText, if_pos hm', zero] at rounds
      exact absurd (rounds.pos hm) (lt_irrefl 0)
    · exact eq_of_roundsTo hd hd' rounds (same ▸ roundsTo_sizeText hd' hm')

/-- Parts of doubles with one sign and one text of their sizes are the same. -/
theorem parts_eq_of_sizeText {x y : Float}
    (signs : isNegative (parts x) = isNegative (parts y))
    (sizes : sizeText (parts x) = sizeText (parts y)) : parts x = parts y := by
  cases hx : parts x with
  | nan =>
    rw [hx] at sizes
    cases hy : parts y with
    | nan => rfl
    | infinite negative => simp [hy, sizeText] at sizes
    | finite d => exact absurd (hy ▸ sizes).symm (sizeText_finite_ne (by decide) _)
  | infinite negative =>
    rw [hx] at sizes
    cases hy : parts y with
    | nan => simp [hy, sizeText] at sizes
    | infinite negative' =>
      rw [hx, hy] at signs
      exact congrArg Parts.infinite signs
    | finite d => exact absurd (hy ▸ sizes).symm (sizeText_finite_ne (by decide) _)
  | finite d =>
    rw [hx] at sizes
    cases hy : parts y with
    | nan => exact absurd (hy ▸ sizes) (sizeText_finite_ne (by decide) _)
    | infinite negative => exact absurd (hy ▸ sizes) (sizeText_finite_ne (by decide) _)
    | finite d' =>
      obtain ⟨mantissa, exponent⟩ :=
        eq_of_sizeText_finite (isDouble_of_finite hx) (isDouble_of_finite hy) (hy ▸ sizes)
      have sign : d.negative = d'.negative := by rwa [hx, hy] at signs
      obtain ⟨negative, m, e⟩ := d
      obtain rfl : negative = d'.negative := sign
      obtain rfl : m = d'.mantissa := mantissa
      obtain rfl : e = d'.exponent := exponent
      rfl

/-- A double is known by its text in a document. -/
theorem text_injective : Function.Injective (text document) := by
  intro x y same
  have lists := congrArg String.toList same
  rw [toList_text, toList_text] at lists
  apply parts_injective
  cases hx : isNegative (parts x) with
  | true =>
    cases hy : isNegative (parts y) with
    | true =>
      rw [hx, hy] at lists
      exact parts_eq_of_sizeText (hx.trans hy.symm) (List.cons.inj lists).2
    | false =>
      rw [hx, hy] at lists
      exact absurd lists.symm (sizeText_ne_minus _ _)
  | false =>
    cases hy : isNegative (parts y) with
    | true =>
      rw [hx, hy] at lists
      exact absurd lists (sizeText_ne_minus _ _)
    | false =>
      rw [hx, hy] at lists
      exact parts_eq_of_sizeText (hx.trans hy.symm) lists

/-- Texts of doubles begin with a digit, a sign or the first letter of a name. -/
theorem text_eq_cons (x : Float) : ∃ c rest, (text document x).toList = c :: rest ∧
    (c.isDigit = true ∨ c ∈ ['-', 'N', 'I']) := by
  rw [toList_text]
  split
  · exact ⟨'-', _, rfl, .inr (by decide)⟩
  · cases parts x with
    | nan => exact ⟨'N', _, rfl, .inr (by decide)⟩
    | infinite negative => exact ⟨'I', _, rfl, .inr (by decide)⟩
    | finite d =>
      obtain ⟨c, rest, shape, digit, -, -⟩ := sizeText_finite d
      exact ⟨c, rest, shape, .inl digit⟩

/-- No text of a double holds a character that ends one document within another. -/
theorem notMem_text (x : Float) {c : Char} (hc : c ∈ [',', ']', '\x7d']) :
    c ∉ (text document x).toList := by
  have other : ∀ c ∈ [',', ']', '\x7d'], isNumeric c = false ∧ c ∉ ['N', 'a', 'N'] ∧
      c ∉ ['I', 'n', 'f', 'i', 'n', 'i', 't', 'y'] ∧ c ≠ '-' := by simp [isNumeric]
  obtain ⟨notNumeric, notNan, notInfinite, notSign⟩ := other c hc
  have size : c ∉ sizeText (parts x) := by
    cases parts x with
    | nan => exact notNan
    | infinite negative => exact notInfinite
    | finite d =>
      obtain ⟨c', rest, shape, digit, numeric, -⟩ := sizeText_finite d
      rw [shape, List.mem_cons]
      rintro (rfl | later)
      · rw [isNumeric_of_isDigit digit] at notNumeric
        cases notNumeric
      · rw [numeric c later] at notNumeric
        cases notNumeric
  rw [toList_text]
  split
  · rw [List.mem_cons, not_or]
    exact ⟨notSign, size⟩
  · exact size

/-- No text of a double is that of a whole number: it holds a character that is neither a digit nor
a sign. -/
theorem exists_mem_text (x : Float) :
    ∃ c ∈ (text document x).toList, c.isDigit = false ∧ c ≠ '-' := by
  have size : ∃ c ∈ sizeText (parts x), c.isDigit = false ∧ c ≠ '-' := by
    cases parts x with
    | nan => exact ⟨'N', by decide, by decide⟩
    | infinite negative => exact ⟨'I', by simp [sizeText], by decide⟩
    | finite d =>
      obtain ⟨c, rest, shape, -, -, mark⟩ := sizeText_finite d
      rw [shape]
      rcases mark with point | exponent
      · exact ⟨'.', List.mem_cons_of_mem _ point, by decide⟩
      · exact ⟨'e', List.mem_cons_of_mem _ exponent, by decide⟩
  obtain ⟨c, hc, mark⟩ := size
  refine ⟨c, ?_, mark⟩
  rw [toList_text]
  split
  · exact List.mem_cons_of_mem _ hc
  · exact hc

end EntityRules.Number
