/-! Random sources. -/

namespace EntityRules

/-- One request to a random source. -/
inductive Draw where
  /-- A number from zero to below one. -/
  | fraction
  /-- A whole number in a range, both ends included. -/
  | whole (low high : Int)
deriving DecidableEq, Repr

/-- Where random numbers come from: lists of numbers written down beforehand, or a generator. -/
inductive RandomSupply where
  | scripted (fractions : List Float) (wholes : List Int)
  | generated (state : StdGen)

/-- A source of random numbers, with a record of what was asked of it. -/
structure RandomSource where
  supply : RandomSupply := .scripted [] []
  /-- What was asked of the source so far. -/
  draws : List Draw := []

namespace RandomSource

/-- The next fraction; a script that has run out gives one half. -/
def fraction (s : RandomSource) : Float × RandomSource :=
  let draws := s.draws ++ [.fraction]
  match s.supply with
  | .scripted [] wholes => (0.5, ⟨.scripted [] wholes, draws⟩)
  | .scripted (x :: rest) wholes => (x, ⟨.scripted rest wholes, draws⟩)
  | .generated g =>
    let (n, g) := randNat g 0 (Nat.pow 2 53 - 1)
    (n.toFloat / 9007199254740992.0, ⟨.generated g, draws⟩)

/-- The next whole number from `low` to `high`; a script's number is taken modulo the size of the
range, and one that has run out gives `low`. -/
def whole (s : RandomSource) (low high : Int) : Int × RandomSource :=
  let draws := s.draws ++ [.whole low high]
  let size := high - low + 1
  match s.supply with
  | .scripted fractions [] => (low, ⟨.scripted fractions [], draws⟩)
  | .scripted fractions (n :: rest) => (low + n % size, ⟨.scripted fractions rest, draws⟩)
  | .generated g =>
    let (n, g) := randNat g 0 (size - 1).toNat
    (low + n, ⟨.generated g, draws⟩)

/-- The sum of a count of whole numbers from one to `sides`. -/
def dice (sides : Int) : Nat → RandomSource → Int × RandomSource
  | 0, s => (0, s)
  | count + 1, s =>
    let (n, s) := s.whole 1 sides
    let (rest, s) := dice sides count s
    (n + rest, s)

end RandomSource

end EntityRules
