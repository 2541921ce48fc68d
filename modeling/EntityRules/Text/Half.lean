/-! Halves of surrogate pairs. -/

namespace EntityRules.Text

/-- The least number of a half. -/
def firstHalf : Nat := 0xD800

/-- How many halves there are; the lower half of these numbers opens a pair. -/
def halfCount : Nat := 0x800

/-- Where the characters that stand for halves begin. -/
def halfPlane : Nat := 0xD0000

/-- The character that stands for a half, given by its number. It is one of a plane without any
letters, until a text with it is written. -/
def half (unit : Nat) : Char := Char.ofNat (halfPlane + (unit - firstHalf))

/-- The place of a half among the halves. -/
def halfIndex? (c : Char) : Option Nat :=
  if halfPlane ≤ c.toNat ∧ c.toNat < halfPlane + halfCount then some (c.toNat - halfPlane) else none

/-- The character that two halves make, if the first one opens a pair and the second one closes
it. -/
def paired? (high low : Char) : Option Char :=
  match halfIndex? high, halfIndex? low with
  | some i, some j =>
    if i < halfCount / 2 ∧ halfCount / 2 ≤ j then
      some (Char.ofNat (0x10000 + i * (halfCount / 2) + (j - halfCount / 2)))
    else none
  | _, _ => none

/-- What stands for a character that cannot be written. -/
def replacement : Char := '\uFFFD'

/-- A text with the characters that pairs of halves make. -/
def joinPairs : List Char → List Char
  | [] => []
  | [c] => [if (halfIndex? c).isSome then replacement else c]
  | c :: d :: rest =>
    match paired? c d with
    | some e => e :: joinPairs rest
    | none => (if (halfIndex? c).isSome then replacement else c) :: joinPairs (d :: rest)

/-- A text in which each half is replaced, once for every byte of it. -/
def replaceHalves (text : List Char) : List Char :=
  text.flatMap fun c => if (halfIndex? c).isSome then List.replicate 3 replacement else [c]

end EntityRules.Text
