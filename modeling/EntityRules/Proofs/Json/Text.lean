import EntityRules.Json.Canonical
import Mathlib.Tactic.Ring

/-! Texts in quotes: the escapes form a prefix code, so a quoted text tells where it ends. -/

namespace EntityRules.Json

open Text

theorem length_hex (width n : ℕ) : (hex width n).length = width := by
  induction width generalizing n with
  | zero => rfl
  | succ width ih => rw [hex, List.length_append, ih, List.length_singleton]

theorem digitChar_inj {m n : ℕ} (hm : m < 16) (hn : n < 16) (h : Nat.digitChar m = Nat.digitChar n) :
    m = n := by
  have all : ∀ m < 16, ∀ n < 16, Nat.digitChar m = Nat.digitChar n → m = n := by decide
  exact all m hm n hn h

/-- Hexadecimal digits tell the last places of a number. -/
theorem hex_inj {width m n : ℕ} (h : hex width m = hex width n) :
    m % 16 ^ width = n % 16 ^ width := by
  induction width generalizing m n with
  | zero => rw [pow_zero, Nat.mod_one, Nat.mod_one]
  | succ width ih =>
    obtain ⟨front, last⟩ := List.append_inj h (by rw [length_hex, length_hex])
    have places := digitChar_inj (Nat.mod_lt _ (by decide)) (Nat.mod_lt _ (by decide))
      (List.cons.inj last).1
    rw [Nat.pow_succ', Nat.mod_mul, Nat.mod_mul, places, ih front]

theorem hex_append_inj {m n : ℕ} {s t : List Char} (hm : m < 65536) (hn : n < 65536)
    (h : hex 4 m ++ s = hex 4 n ++ t) : m = n ∧ s = t := by
  obtain ⟨digits, rest⟩ := List.append_inj h (by rw [length_hex, length_hex])
  have same := hex_inj digits
  exact ⟨by omega, rest⟩

/-- Numbers of characters that are written the same are the same: no half of a pair is a
character. -/
theorem unitEscape_append_inj {c d : Char} {s t : List Char}
    (h : unitEscape c.toNat ++ s = unitEscape d.toNat ++ t) : c = d ∧ s = t := by
  have hc : c.toNat < 0xD800 ∨ 0xDFFF < c.toNat ∧ c.toNat < 0x110000 := c.valid
  have hd : d.toNat < 0xD800 ∨ 0xDFFF < d.toNat ∧ d.toNat < 0x110000 := d.valid
  unfold unitEscape at h
  split at h
  · split at h
    · simp only [List.cons_append, List.cons.injEq, true_and] at h
      obtain ⟨same, rest⟩ := hex_append_inj (by omega) (by omega) h
      exact ⟨Char.toNat_inj.mp same, rest⟩
    · simp only [List.cons_append, List.append_assoc, List.cons.injEq, true_and] at h
      have := (hex_append_inj (by omega) (by omega) h).1
      omega
  · split at h
    · simp only [List.cons_append, List.append_assoc, List.cons.injEq, true_and] at h
      have := (hex_append_inj (by omega) (by omega) h).1
      omega
    · simp only [List.cons_append, List.append_assoc, List.cons.injEq, true_and] at h
      obtain ⟨first, h⟩ := hex_append_inj (by omega) (by omega) h
      simp only [List.cons.injEq, true_and] at h
      obtain ⟨second, rest⟩ := hex_append_inj (by omega) (by omega) h
      exact ⟨Char.toNat_inj.mp (by omega), rest⟩

/-- The character of a short escape. -/
def ofLetter (c : Char) : Char :=
  if c = 'n' then '\n' else if c = 'r' then '\r' else if c = 't' then '\t'
  else if c = 'f' then '\x0c' else if c = 'b' then '\x08' else c

/-- A character is written as a letter after a backslash, as itself or by its number. -/
theorem escapedChar_cases (c : Char) :
    (∃ k, escapedChar c = ['\\', k] ∧ k ≠ 'u' ∧ c = ofLetter k) ∨
    (escapedChar c = [c] ∧ c ≠ '\\' ∧ c ≠ '"') ∨ escapedChar c = unitEscape c.toNat := by
  unfold escapedChar
  split_ifs with h₁ h₂ h₃ h₄ h₅ h₆ h₇ h₈
  · exact .inl ⟨_, rfl, by decide, h₁⟩
  · exact .inl ⟨_, rfl, by decide, h₂⟩
  · exact .inl ⟨_, rfl, by decide, h₃⟩
  · exact .inl ⟨_, rfl, by decide, h₄⟩
  · exact .inl ⟨_, rfl, by decide, h₅⟩
  · exact .inl ⟨_, rfl, by decide, h₆⟩
  · exact .inl ⟨_, rfl, by decide, h₇⟩
  · exact .inr (.inl ⟨rfl, h₂, h₁⟩)
  · exact .inr (.inr rfl)

theorem unitEscape_eq_cons (n : ℕ) : ∃ rest, unitEscape n = '\\' :: 'u' :: rest := by
  unfold unitEscape
  split
  · exact ⟨_, rfl⟩
  · exact ⟨_, rfl⟩

/-- No escape is the beginning of another one. -/
theorem escapedChar_append_inj {c d : Char} {s t : List Char}
    (h : escapedChar c ++ s = escapedChar d ++ t) : c = d ∧ s = t := by
  obtain ⟨uc, huc⟩ := unitEscape_eq_cons c.toNat
  obtain ⟨ud, hud⟩ := unitEscape_eq_cons d.toNat
  rcases escapedChar_cases c with ⟨k, hc, hk, ck⟩ | ⟨hc, slash, -⟩ | hc
  · rcases escapedChar_cases d with ⟨l, hd, hl, dl⟩ | ⟨hd, slash', -⟩ | hd
    · rw [hc, hd] at h
      obtain ⟨same, rest⟩ := List.cons.inj (List.cons.inj h).2
      exact ⟨by rw [ck, dl, same], rest⟩
    · rw [hc, hd] at h
      exact absurd (List.cons.inj h).1.symm slash'
    · rw [hc, hd, hud] at h
      exact absurd (List.cons.inj (List.cons.inj h).2).1 hk
  · rcases escapedChar_cases d with ⟨l, hd, hl, dl⟩ | ⟨hd, slash', -⟩ | hd
    · rw [hc, hd] at h
      exact absurd (List.cons.inj h).1 slash
    · rw [hc, hd] at h
      exact List.cons.inj h
    · rw [hc, hd, hud] at h
      exact absurd (List.cons.inj h).1 slash
  · rcases escapedChar_cases d with ⟨l, hd, hl, dl⟩ | ⟨hd, slash', -⟩ | hd
    · rw [hc, hd, huc] at h
      exact absurd (List.cons.inj (List.cons.inj h).2).1.symm hl
    · rw [hc, hd, huc] at h
      exact absurd (List.cons.inj h).1.symm slash'
    · rw [hc, hd] at h
      exact unitEscape_append_inj h

theorem escapedChar_ne_quote (c : Char) (s rest : List Char) : escapedChar c ++ s ≠ '"' :: rest := by
  obtain ⟨u, hu⟩ := unitEscape_eq_cons c.toNat
  intro h
  rcases escapedChar_cases c with ⟨k, hc, -, -⟩ | ⟨hc, -, quote⟩ | hc
  · rw [hc] at h
    exact absurd (List.cons.inj h).1 (by decide)
  · rw [hc] at h
    exact quote (List.cons.inj h).1
  · rw [hc, hu] at h
    exact absurd (List.cons.inj h).1 (by decide)

theorem flatMap_escapedChar_inj {cs ds s t : List Char}
    (h : cs.flatMap escapedChar ++ '"' :: s = ds.flatMap escapedChar ++ '"' :: t) :
    cs = ds ∧ s = t := by
  induction cs generalizing ds with
  | nil =>
    cases ds with
    | nil => exact ⟨rfl, (List.cons.inj h).2⟩
    | cons d ds =>
      rw [List.flatMap_cons, List.append_assoc] at h
      exact absurd h.symm (escapedChar_ne_quote d _ _)
  | cons c cs ih =>
    rw [List.flatMap_cons, List.append_assoc] at h
    cases ds with
    | nil => exact absurd h (escapedChar_ne_quote c _ _)
    | cons d ds =>
      rw [List.flatMap_cons, List.append_assoc] at h
      obtain ⟨rfl, rest⟩ := escapedChar_append_inj h
      obtain ⟨rfl, after⟩ := ih rest
      exact ⟨rfl, after⟩

/-- A text in quotes tells what it is and where it ends. -/
theorem textChars_append_inj {a b : String} {s t : List Char}
    (h : textChars a ++ s = textChars b ++ t) : a = b ∧ s = t := by
  simp only [textChars, List.cons_append, List.append_assoc, List.cons.injEq, true_and] at h
  obtain ⟨same, rest⟩ := flatMap_escapedChar_inj h
  exact ⟨String.toList_inj.mp same, rest⟩

end EntityRules.Json
