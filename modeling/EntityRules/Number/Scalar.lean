import EntityRules.Number.Binary64

/-! The numbers that strengths, scores and times are made of. -/

namespace EntityRules

/-- Everything that the engine computes with strengths, scores and times needs no more than these
operations, so its rules can also be read over exact fractions. -/
class Scalar (α : Type) extends Zero α, One α, Add α, Mul α, Div α where
  lt : α → α → Bool
  le : α → α → Bool
  /-- The quotient of two whole numbers, the second one not zero; none when it is out of range. -/
  ratio? : Int → Int → Option α
  /-- A power with a whole exponent; none when it is out of range. -/
  power? : α → Nat → Option α

namespace Scalar

variable {α : Type} [Scalar α]

/-- The greater of two numbers, the first one unless the second is above it. -/
def max (a b : α) : α := if lt a b then b else a

/-- The lesser of two numbers, the first one unless the second is below it. -/
def min (a b : α) : α := if lt b a then b else a

/-- Brings a number into the range from zero to one. What is not below one counts as one. -/
def clamp (x : α) : α := max 0 (min 1 x)

def sum (xs : List α) : α := xs.foldl (· + ·) 0

/-- A natural number as a scalar. -/
def count (n : Nat) : α := sum (List.replicate n 1)

def half (x : α) : α := x / (1 + 1)

end Scalar

instance : Scalar Float where
  zero := 0.0
  one := 1.0
  lt a b := a < b
  le a b := a ≤ b
  ratio? := Binary64.ofQuotient?
  power? x n :=
    let y := Float.pow x n.toFloat
    if y.isInf && x.isFinite then none else some y

end EntityRules
