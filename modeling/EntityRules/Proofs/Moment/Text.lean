import EntityRules.Moment.Text
import Mathlib.Data.Nat.Digits.Defs

/-! The text of a moment is read back as that moment, with its offset or without one. -/

namespace EntityRules

open Number

/-- A digit is taken, whatever follows it. -/
theorem Number.digitRun_cons (gaps : Bool) {c : Char} (digit : c.isDigit = true)
    (rest : List Char) (n count : Nat) :
    digitRun gaps (c :: rest) n count =
      digitRun gaps rest (10 * n + (c.toNat - 48)) (count + 1) := by
  have plain : c ≠ '_' := by
    rintro rfl
    exact absurd digit (by decide)
  rw [digitRun.eq_def]
  split
  · next h => cases h
  · next h => exact absurd (List.cons.inj h).1 plain
  · next h => exact absurd (List.cons.inj h).1 plain
  · next h =>
    obtain ⟨rfl, rfl⟩ := List.cons.inj h
    rw [if_pos digit]

/-- Digits without gaps are read to their end. -/
theorem Number.digitRun_digits (gaps : Bool) {ds : List Char} (hd : ∀ c ∈ ds, c.isDigit = true)
    (n count : Nat) :
    digitRun gaps ds n count = (Nat.ofDigitChars 10 ds n, count + ds.length, []) := by
  induction ds generalizing n count with
  | nil => rfl
  | cons c rest ih =>
    obtain ⟨digit, others⟩ := List.forall_mem_cons.mp hd
    rw [digitRun_cons gaps digit, ih others, List.length_cons, Nat.ofDigitChars_cons]
    congr 2
    omega

namespace Moment

theorem isDigit_padded (width n : Nat) : ∀ c ∈ padded width n, c.isDigit = true := by
  intro c hc
  rcases List.mem_append.mp hc with zero | digit
  · rw [List.eq_of_mem_replicate zero]
    rfl
  · exact Nat.isDigit_of_mem_toDigits (by decide) (by decide) digit

theorem length_padded {width n : Nat} (hw : 0 < width) (h : n < 10 ^ width) :
    (padded width n).length = width := by
  have fits := (Nat.length_toDigits_le_iff (by decide) hw).mpr h
  rw [padded, List.length_append, List.length_replicate]
  omega

theorem ofDigitChars_padded (width n : Nat) : Nat.ofDigitChars 10 (padded width n) 0 = n := by
  rw [padded, Nat.ofDigitChars_append, Nat.ofDigitChars_replicate_zero, Nat.mul_zero,
    Nat.ofDigitChars_ten_toDigits]

theorem digits?_append {ds : List Char} (hd : ∀ c ∈ ds, c.isDigit = true) (rest : List Char)
    (n : Nat) : digits? ds.length (ds ++ rest) n = some (Nat.ofDigitChars 10 ds n, rest) := by
  induction ds generalizing n with
  | nil => rfl
  | cons c others ih =>
    obtain ⟨digit, hd⟩ := List.forall_mem_cons.mp hd
    rw [List.length_cons, List.cons_append, digits?, if_pos digit, ih hd]
    rfl

theorem digits?_padded {width n : Nat} (hw : 0 < width) (h : n < 10 ^ width) (rest : List Char) :
    digits? width (padded width n ++ rest) 0 = some (n, rest) := by
  have read := digits?_append (isDigit_padded width n) rest 0
  rwa [length_padded hw h, ofDigitChars_padded] at read

/-- What follows a number in a text: nothing, or something other than a digit. -/
def Ends (rest : List Char) : Prop := ∀ c ∈ rest.head?, c.isDigit = false

theorem takeWhile_isDigit_append {ds rest : List Char} (hd : ∀ c ∈ ds, c.isDigit = true)
    (ends : Ends rest) : (ds ++ rest).takeWhile Char.isDigit = ds := by
  rw [List.takeWhile_append_of_pos hd]
  cases rest with
  | nil => exact List.append_nil ds
  | cons c rest =>
    rw [List.takeWhile_cons_of_neg (by simp [ends c rfl]), List.append_nil]

theorem dropWhile_isDigit_append {ds rest : List Char} (hd : ∀ c ∈ ds, c.isDigit = true)
    (ends : Ends rest) : (ds ++ rest).dropWhile Char.isDigit = rest := by
  rw [List.dropWhile_append_of_pos hd]
  cases rest with
  | nil => rfl
  | cons c rest => exact List.dropWhile_cons_of_neg (by simp [ends c rfl])

theorem dateFields?_text {year month day : Nat} (hy : year < 10 ^ 4) (hm : month < 10 ^ 2)
    (hd : day < 10 ^ 2) (rest : List Char) :
    dateFields? (padded 4 year ++ '-' :: (padded 2 month ++ '-' :: (padded 2 day ++ rest))) =
      some (year, month, day, rest) := by
  simp only [dateFields?, digits?_padded (by decide : 0 < 4) hy,
    digits?_padded (by decide : 0 < 2) hm, digits?_padded (by decide : 0 < 2) hd, Option.map_some]

theorem fraction?_padded {micro : Nat} (h : micro < 10 ^ 6) {rest : List Char} (ends : Ends rest) :
    fraction? (padded 6 micro ++ rest) = some (micro, rest) := by
  have digits := isDigit_padded 6 micro
  have length : (padded 6 micro).length = 6 := length_padded (by decide) h
  have some_digit : padded 6 micro ≠ [] := by
    intro empty
    rw [empty] at length
    cases length
  unfold fraction?
  rw [takeWhile_isDigit_append digits ends, dropWhile_isDigit_append digits ends]
  dsimp only
  rw [List.take_of_length_le (Nat.le_of_eq length), digitRun_digits false digits,
    ofDigitChars_padded, if_neg some_digit, length]
  dsimp only
  rw [Nat.zero_add, Nat.sub_self]
  exact congrArg (fun n => some (n, rest)) (Nat.mul_one micro)

/-- The fraction of a second as it is written. -/
def fractionText (micro : Nat) : List Char := if micro = 0 then [] else '.' :: padded 6 micro

/-- What is written behind the time of day. -/
def zoneText : Option Int → List Char
  | none => []
  | some o => if o = 0 then ['Z'] else offsetText o

theorem zoneText_cases (offset : Option Int) :
    zoneText offset = [] ∨ ∃ c rest, zoneText offset = c :: rest ∧ c ∈ ['Z', '+', '-'] := by
  cases offset with
  | none => exact .inl rfl
  | some o =>
    right
    unfold zoneText offsetText
    dsimp only
    split
    · exact ⟨_, _, rfl, by decide⟩
    · split
      · exact ⟨_, _, rfl, by decide⟩
      · exact ⟨_, _, rfl, by decide⟩

theorem ends_zoneText (offset : Option Int) : Ends (zoneText offset) := by
  intro c hc
  rcases zoneText_cases offset with empty | ⟨first, rest, shape, mark⟩
  · rw [empty] at hc
    cases hc
  · rw [shape] at hc
    cases hc
    simp only [List.mem_cons, List.not_mem_nil, or_false] at mark
    rcases mark with rfl | rfl | rfl <;> rfl

theorem timeFields?_text {hour minute second micro : Nat} (hh : hour < 10 ^ 2)
    (hm : minute < 10 ^ 2) (hs : second < 10 ^ 2) (hu : micro < 10 ^ 6) (offset : Option Int) :
    timeFields? (padded 2 hour ++ ':' :: (padded 2 minute ++ ':' :: (padded 2 second ++
      (fractionText micro ++ zoneText offset)))) =
      some (hour, minute, second, micro, zoneText offset) := by
  simp only [timeFields?, digits?_padded (by decide : 0 < 2) hh,
    digits?_padded (by decide : 0 < 2) hm, digits?_padded (by decide : 0 < 2) hs]
  unfold fractionText
  by_cases zero : micro = 0
  · rw [if_pos zero, List.nil_append, zero]
    rcases zoneText_cases offset with empty | ⟨first, rest, shape, mark⟩
    · rw [empty]
    · simp only [List.mem_cons, List.not_mem_nil, or_false] at mark
      rw [shape]
      rcases mark with rfl | rfl | rfl <;> rfl
  · rw [if_neg zero, List.cons_append]
    simp only [fraction?_padded hu (ends_zoneText offset), Option.map_some]

theorem offset?_zoneText {offset : Option Int} (h : ∀ o ∈ offset, -1440 < o ∧ o < 1440) :
    offset? (zoneText offset) = some offset := by
  cases offset with
  | none => rfl
  | some o =>
    obtain ⟨low, high⟩ := h o rfl
    have hours : o.natAbs / 60 < 10 ^ 2 := by omega
    have minutes : o.natAbs % 60 < 10 ^ 2 := by omega
    have below : o.natAbs % 60 < 60 := by omega
    have read := digits?_padded (by decide : 0 < 2) minutes []
    rw [List.append_nil] at read
    rw [zoneText]
    split
    · next zero =>
      rw [zero]
      rfl
    · rw [offsetText]
      split
      · simp only [offset?, digits?_padded (by decide : 0 < 2) hours, read, if_pos below,
          reduceIte]
        congr 2
        omega
      · simp only [offset?, digits?_padded (by decide : 0 < 2) hours, read, if_pos below,
          reduceIte, Bool.false_eq_true]
        congr 2
        omega

/-- The text of a moment in its parts. -/
theorem toList_text (m : Moment) :
    m.text.toList = padded 4 m.year ++ '-' :: (padded 2 m.month ++ '-' :: (padded 2 m.day ++
      'T' :: (padded 2 m.hour ++ ':' :: (padded 2 m.minute ++ ':' :: (padded 2 m.second ++
        (fractionText m.micro ++ zoneText m.offset)))))) := by
  rw [text, textWith, String.toList_ofList]
  simp only [List.append_assoc, List.cons_append]
  rfl

theorem read_text (m : Moment) : read m.text = .ok m := by
  obtain ⟨-, year, -, month, -, day, hour, minute, second, micro, offset⟩ := m.inRange
  have days : m.day < 10 ^ 2 := by
    have most : daysInMonth m.year m.month ≤ 31 := by
      unfold daysInMonth
      split
      · split <;> decide
      · split <;> decide
    omega
  have full : readFull m.text.toList = .ok m := by
    rw [toList_text, readFull, dateFields?_text (by omega) (by omega) days]
    simp only [timeFields?_text (Nat.lt_trans hour (by decide)) (Nat.lt_trans minute (by decide))
      (Nat.lt_trans second (by decide)) micro, offset?_zoneText offset]
    exact ofFields_toFields m
  rw [read, full]
  rfl

end Moment

end EntityRules
