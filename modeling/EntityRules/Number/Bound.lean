import EntityRules.Number.Binary64

/-! Bounds on numbers of things, as exact values. -/

namespace EntityRules

/-- A bound is a fraction in lowest terms or infinite, so two bounds are equal just when they bound
alike, however they were written. -/
inductive Bound where
  | finite (numerator : Int) (denominator : Nat)
  | infinite (negative : Bool)
deriving DecidableEq, Repr

namespace Bound

/-- A whole number as a bound. -/
def ofInt (n : Int) : Bound := .finite n 1

/-- A fraction in lowest terms. -/
def ofFraction (numerator : Int) (denominator : Nat) : Bound :=
  let common := Nat.gcd numerator.natAbs denominator
  .finite (numerator / common) (denominator / common)

/-- What a double bounds; a non-number bounds nothing. -/
def ofDouble? (x : Float) : Option Bound :=
  match Binary64.parts x with
  | .finite d => some (ofFraction d.numerator d.fraction.2)
  | .infinite negative => some (.infinite negative)
  | .nan => none

def isPositive : Bound → Bool
  | finite numerator _ => decide (0 < numerator)
  | infinite negative => !negative

/-- A whole number beyond all finite doubles, which an infinite bound counts as. -/
def beyond : Int := Nat.pow 2 1024

/-- The greatest whole number that is not above a bound. -/
def floor : Bound → Int
  | finite numerator denominator => numerator / denominator
  | infinite negative => if negative then -beyond else beyond

/-- The least whole number that is not below a bound. -/
def ceiling : Bound → Int
  | finite numerator denominator => -(-numerator / denominator)
  | infinite negative => if negative then -beyond else beyond

@[simp] theorem floor_ofInt (n : Int) : (ofInt n).floor = n := by simp [ofInt, floor]

@[simp] theorem ceiling_ofInt (n : Int) : (ofInt n).ceiling = n := by simp [ofInt, ceiling]

end Bound

end EntityRules
