import EntityRules.Number.Binary64

/-! The shortest decimal that reads back as a given double-precision number. -/

namespace EntityRules.Number

open Binary64

/-- A decimal `0.d₁d₂… × 10 ^ point`, its digits given as one whole number. -/
structure Decimal where
  digits : Nat
  point : Int
deriving Repr, DecidableEq

/-- The count of decimal digits of a whole number. -/
def digitCount (n : Nat) : Nat := (Nat.toDigits 10 n).length

/-- The count of digits before the decimal point of `num / den`; zero or less below one tenth. -/
def decimalPoint (num den : Nat) : Int :=
  if den ≤ num then digitCount (num / den)
  else
    let d := digitCount (den / num)
    if den = num * Nat.pow 10 (d - 1) then 2 - (d : Int) else 1 - (d : Int)

/-- The interval of numbers that round to a given one, over a common denominator. -/
structure Interval where
  low : Nat
  value : Nat
  high : Nat
  den : Nat
  closed : Bool

/-- The interval around a positive finite number. It ends half way to its neighbours; the ends
belong to it when its mantissa is even. -/
def Interval.around (d : Expanded) : Interval :=
  let scale := Nat.pow 2 (d.exponent - 2).toNat
  let below := if d.mantissa = Nat.pow 2 52 ∧ d.exponent ≠ -1074 then 1 else 2
  { low := (4 * d.mantissa - below) * scale
    value := 4 * d.mantissa * scale
    high := (4 * d.mantissa + 2) * scale
    den := Nat.pow 2 (2 - d.exponent).toNat
    closed := d.mantissa % 2 = 0 }

/-- Whether `num` over the interval's denominator lies in it. -/
def Interval.holds (i : Interval) (num : Nat) : Bool :=
  if i.closed then i.low ≤ num ∧ num ≤ i.high else i.low < num ∧ num < i.high

/-- The distance of two whole numbers. -/
def distance (a b : Nat) : Nat := (a - b) + (b - a)

/-- The point of the grid with the given count of digits that is nearest to the number and still
reads back, if there is one. -/
def Interval.onGrid (i : Interval) (digits : Nat) : Option Decimal :=
  let point := decimalPoint i.value i.den
  let unit := point - digits
  let up := Nat.pow 10 (-unit).toNat
  let scaled : Interval :=
    { i with low := i.low * up, value := i.value * up, high := i.high * up }
  let step := i.den * Nat.pow 10 unit.toNat
  let a := scaled.value / step
  let b := a + 1
  let nearerBelow :=
    let da := distance (a * step) scaled.value
    let db := distance (b * step) scaled.value
    decide (da < db ∨ (da = db ∧ a % 2 = 0))
  let pick (n : Nat) : Option Decimal :=
    if digitCount n = digits + 1 then some ⟨n, point + 1⟩ else some ⟨n, point⟩
  match scaled.holds (a * step), scaled.holds (b * step) with
  | true, true => pick (if nearerBelow then a else b)
  | true, false => pick a
  | false, true => pick b
  | false, false => none

/-- Tries the grids from `digits` on; the last one always reads back. -/
def Interval.search (i : Interval) : Nat → Nat → Decimal
  | 0, digits => (i.onGrid digits).getD ⟨0, 0⟩
  | fuel + 1, digits => (i.onGrid digits).getD (i.search fuel (digits + 1))

/-- The shortest decimal that reads back as a positive finite number. -/
def shortest (d : Expanded) : Decimal := (Interval.around d).search 16 1

end EntityRules.Number
