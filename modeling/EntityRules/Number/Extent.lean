import EntityRules.Number.Bound
import EntityRules.Number.Scalar
import EntityRules.Value

/-! Sizes as documents give them: whole, fractional, a boolean, or no number at all. -/

namespace EntityRules

/-- A size. What is no number compares with nothing and cannot be computed with. -/
inductive Extent (α : Type) where
  | whole (n : Int)
  | flag (b : Bool)
  | fractional (x : α)
  /-- Something that is no number, by the name of its type. -/
  | foreign (type : String)

/-- What keeps a size from being used. -/
inductive ExtentTrouble where
  /-- A whole number is beyond the range of scalars. -/
  | numberTooLarge
  /-- The quotient of two whole numbers is beyond that range. -/
  | quotientTooLarge
  /-- A power of a scalar is beyond that range. -/
  | powerTooLarge
  /-- A number of things is fractional. -/
  | notWhole
  /-- A comparison between values of two types, one of which is no number. -/
  | notComparable (left operator right : String)
  /-- A value of a type is needed as a number. -/
  | notNumber (type : String)
  /-- A value of a type is no part of a key. -/
  | notKey (type : String)
deriving DecidableEq, Repr

namespace ExtentTrouble

def message : ExtentTrouble → String
  | numberTooLarge => "int too large to convert to float"
  | quotientTooLarge => "integer division result too large for a float"
  | powerTooLarge => "power too large for a float"
  | notWhole => "slice indices must be integers or None or have an __index__ method"
  | notComparable left operator right =>
    "'" ++ operator ++ "' not supported between instances of '" ++ left ++ "' and '" ++ right ++ "'"
  | notNumber type => "a number is needed, not '" ++ type ++ "'"
  | notKey type => "unhashable type: '" ++ type ++ "'"

/-- Whether the trouble is that a number is too large. -/
def isSize : ExtentTrouble → Bool
  | numberTooLarge | quotientTooLarge | powerTooLarge => true
  | _ => false

end ExtentTrouble

namespace Extent

section

variable {α : Type} [Scalar α]

/-- The whole number that a boolean counts as. -/
def ofFlag (b : Bool) : Int := if b then 1 else 0

/-- The trouble of asking whether something is above a whole number. -/
def notAbove (type : String) : ExtentTrouble := .notComparable type ">" "int"

/-- The trouble of asking whether something is at most a whole number. -/
def notAtMost (type : String) : ExtentTrouble := .notComparable type "<=" "int"

/-- The trouble of asking whether a whole number reaches something. -/
def notReached (type : String) : ExtentTrouble := .notComparable "int" ">=" type

/-- The size itself when it is above one, and one otherwise. -/
def atLeastOne : Extent α → Except ExtentTrouble (Extent α)
  | whole n => .ok (whole (max 1 n))
  | flag _ => .ok (whole 1)
  | fractional x => .ok (if Scalar.lt 1 x then fractional x else whole 1)
  | foreign type => .error (notAbove type)

def isPositive : Extent α → Except ExtentTrouble Bool
  | whole n => .ok (decide (0 < n))
  | flag b => .ok b
  | fractional x => .ok (Scalar.lt 0 x)
  | foreign type => .error (notAbove type)

/-- The size as a number of things, which is none when it is below zero. -/
def count : Extent α → Except ExtentTrouble Nat
  | whole n => .ok n.toNat
  | flag b => .ok b.toNat
  | fractional x => if Scalar.lt 0 x then .error .notWhole else .ok 0
  | foreign type => .error (notAbove type)

/-- A whole number as a scalar. -/
def scalarOf (n : Int) : Except ExtentTrouble α :=
  match Scalar.ratio? n 1 with
  | some x => .ok x
  | none => .error .numberTooLarge

def scalar : Extent α → Except ExtentTrouble α
  | whole n => scalarOf n
  | flag b => scalarOf (ofFlag b)
  | fractional x => .ok x
  | foreign type => .error (.notNumber type)

/-- A power of a size with an exponent above zero. The power of a whole number is exact until it
becomes a scalar. -/
def power (exponent : Nat) : Extent α → Except ExtentTrouble α
  | whole n => scalarOf (Int.pow n exponent)
  | flag b => scalarOf (ofFlag b)
  | fractional x =>
    match Scalar.power? x exponent with
    | some y => .ok y
    | none => .error .powerTooLarge
  | foreign type => .error (.notNumber type)

/-- The share of a whole size that is left when a distance is taken from it. -/
def wholeShareLeft (distance : Nat) (n : Int) : Except ExtentTrouble α :=
  match Scalar.ratio? (n - distance) n with
  | some x => .ok x
  | none => .error .quotientTooLarge

/-- The share of a size that is left when a distance is taken from it. -/
def shareLeft (distance : Nat) : Extent α → Except ExtentTrouble α
  | whole n => wholeShareLeft distance n
  | flag b => wholeShareLeft distance (ofFlag b)
  | fractional x => (scalarOf (-(distance : Int))).map fun d => (x + d) / x
  | foreign type => .error (.notNumber type)

end

def ofJson : Json → Extent Float
  | .int n => .whole n
  | .bool b => .flag b
  | .float x => .fractional x
  | j => .foreign j.typeName

/-- The name of the type of a size. -/
def typeName : Extent Float → String
  | .whole _ => "int"
  | .flag _ => "bool"
  | .fractional _ => "float"
  | .foreign type => type

def encode : Extent Float → Json
  | .whole n => .int n
  | .flag b => .bool b
  | .fractional x => .float x
  | .foreign type => .str type

/-- The nearest double, which is infinite when the size is out of range. -/
def double? : Extent Float → Option Float
  | .whole n => some ((Binary64.ofInt? n).getD (if n < 0 then -1.0 / 0.0 else 1.0 / 0.0))
  | .flag b => some (if b then 1 else 0)
  | .fractional x => some x
  | .foreign _ => none

/-- The size as an exact bound. -/
def bound? : Extent Float → Option Bound
  | .whole n => some (.ofInt n)
  | .flag b => some (.ofInt (ofFlag b))
  | .fractional x => Bound.ofDouble? x
  | .foreign _ => none

/-- The size as an exact bound. The trouble with what is none is told by the name of its type. -/
def bound (trouble : String → ExtentTrouble) (e : Extent Float) : Except ExtentTrouble Bound :=
  match e.bound? with
  | some bound => .ok bound
  | none => .error (trouble e.typeName)

/-- The greatest whole number that is not above a size. -/
def floor? (e : Extent Float) : Option Int := e.bound?.map (·.floor)

/-- Whether a size is above a double. Numbers are compared exactly. -/
def isAbove (x : Float) : Extent Float → Except ExtentTrouble Bool
  | .whole n => .ok (Binary64.compareInt n x = some .gt)
  | .flag b => .ok (Binary64.compareInt (ofFlag b) x = some .gt)
  | .fractional y => .ok (decide (x < y))
  | .foreign type => .error (.notComparable "float" "<" type)

/-- Whether a double reaches a size. Numbers are compared exactly. -/
def isReached (x : Float) : Extent Float → Except ExtentTrouble Bool
  | .whole n => .ok (Binary64.compareInt n x ∈ [some .lt, some .eq])
  | .flag b => .ok (Binary64.compareInt (ofFlag b) x ∈ [some .lt, some .eq])
  | .fractional y => .ok (decide (y ≤ x))
  | .foreign type => .error (.notComparable "float" ">=" type)

end Extent

end EntityRules
