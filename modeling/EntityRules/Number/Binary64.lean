/-! Double-precision numbers as exact fractions. -/

namespace EntityRules.Binary64

/-- A finite number: the mantissa times two to the exponent, with a sign. -/
structure Expanded where
  negative : Bool
  mantissa : Nat
  exponent : Int
deriving Repr, DecidableEq

/-- What a double-precision word denotes. -/
inductive Parts where
  | nan
  | infinite (negative : Bool)
  | finite (value : Expanded)
deriving Repr, DecidableEq

def parts (x : Float) : Parts :=
  let bits := x.toBits.toNat
  let negative := decide (Nat.pow 2 63 ≤ bits)
  let biased : Nat := bits / Nat.pow 2 52 % Nat.pow 2 11
  let fraction : Nat := bits % Nat.pow 2 52
  if biased = 2047 then
    if fraction = 0 then .infinite negative else .nan
  else if biased = 0 then .finite ⟨negative, fraction, -1074⟩
  else .finite ⟨negative, Nat.pow 2 52 + fraction, (biased : Int) - 1075⟩

/-- The size of a finite number as a fraction: numerator and denominator. -/
def Expanded.fraction (d : Expanded) : Nat × Nat :=
  (d.mantissa * Nat.pow 2 d.exponent.toNat, Nat.pow 2 (-d.exponent).toNat)

/-- The signed numerator of a finite number over the denominator of `Expanded.fraction`. -/
def Expanded.numerator (d : Expanded) : Int :=
  if d.negative then -(d.fraction.1 : Int) else d.fraction.1

/-- The quotient rounded to the nearest whole number, ties to the even one. -/
def roundDiv (num den : Nat) : Nat :=
  let q := num / den
  let twice := 2 * (num % den)
  if den < twice ∨ (twice = den ∧ q % 2 = 1) then q + 1 else q

/-- The exponent `e` with `2 ^ e ≤ num / den < 2 ^ (e + 1)`, for positive numbers. -/
def binaryExponent (num den : Nat) : Int :=
  let guess : Int := (num.log2 : Int) - den.log2
  if num * Nat.pow 2 (-guess).toNat < den * Nat.pow 2 guess.toNat then guess - 1 else guess

/-- The word of infinity without its sign. -/
def infinityBits : Nat := 2047 * Nat.pow 2 52

/-- The word, without sign, of the number nearest to a fraction. -/
def nearestBits (num den : Nat) : Nat :=
  if num = 0 then 0
  else
    let unit : Int := max (binaryExponent num den - 52) (-1074)
    let mantissa := roundDiv (num * Nat.pow 2 (-unit).toNat) (den * Nat.pow 2 unit.toNat)
    min (mantissa + (unit + 1074).toNat * Nat.pow 2 52) infinityBits

/-- The number nearest to `num / den`; infinite when that is out of range. -/
def ofFraction (negative : Bool) (num den : Nat) : Float :=
  Float.ofBits (UInt64.ofNat (nearestBits num den + if negative then Nat.pow 2 63 else 0))

/-- The number nearest to a whole number, if it is in range. -/
def ofInt? (n : Int) : Option Float :=
  let x := ofFraction (decide (n < 0)) n.natAbs 1
  if x.isInf then none else some x

/-- The number nearest to the quotient of two whole numbers, if it is in range. -/
def ofQuotient? (num den : Int) : Option Float :=
  let x := ofFraction (decide (num < 0) != decide (den < 0)) num.natAbs den.natAbs
  if x.isInf then none else some x

/-- A finite number without its fractional part. -/
def Expanded.truncate (d : Expanded) : Int :=
  let size : Int := ↑(d.fraction.1 / d.fraction.2)
  if d.negative then -size else size

/-- Compares a whole number with a double exactly; nothing compares with a non-number. -/
def compareInt (n : Int) (x : Float) : Option Ordering :=
  match parts x with
  | .nan => none
  | .infinite negative => some (if negative then .gt else .lt)
  | .finite d => some (compare (n * d.fraction.2) d.numerator)

/-- The whole number that a double equals, if there is one. -/
def toInt? (x : Float) : Option Int :=
  match parts x with
  | .finite d => if d.fraction.1 % d.fraction.2 = 0 then some d.truncate else none
  | _ => none

end EntityRules.Binary64
