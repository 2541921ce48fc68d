import EntityRules.Number.Shortest

/-! Texts of doubles: the shortest one that reads back, and ones with a fixed count of places. -/

namespace EntityRules.Number

open Binary64

/-- How a number is written: which exponents stay positional, and the names of the numbers that
are not finite. -/
structure Style where
  /-- The least exponent of ten of the first digit that is written positionally. -/
  least : Int
  /-- The first exponent of ten of the first digit that is no longer written positionally. -/
  limit : Int
  nan : String
  infinity : String

/-- Numbers in messages: positional from 0.0001 to below 10^16. -/
def plain : Style := ⟨-4, 16, "nan", "inf"⟩

/-- Numbers in documents: as `plain`, with the names used in JSON files. -/
def document : Style := ⟨-4, 16, "NaN", "Infinity"⟩

def zeros (n : Nat) : List Char := List.replicate n '0'

/-- The exponent is written with its sign and at least two digits. -/
def exponentText (e : Int) : List Char :=
  let digits := Nat.toDigits 10 e.natAbs
  (if e < 0 then '-' else '+') :: (zeros (2 - digits.length) ++ digits)

/-- Writes a decimal; a whole number written positionally ends in a point and a zero. -/
def Decimal.text (d : Decimal) (style : Style) : List Char :=
  let ds := Nat.toDigits 10 d.digits
  let exponent := d.point - 1
  if style.least ≤ exponent ∧ exponent < style.limit then
    if d.point ≤ 0 then '0' :: '.' :: (zeros (-d.point).toNat ++ ds)
    else
      let whole := d.point.toNat
      if ds.length ≤ whole then ds ++ zeros (whole - ds.length) ++ ['.', '0']
      else ds.take whole ++ '.' :: ds.drop whole
  else
    match ds with
    | [c] => c :: 'e' :: exponentText exponent
    | c :: rest => c :: '.' :: (rest ++ 'e' :: exponentText exponent)
    | [] => []

def signed (negative : Bool) (text : List Char) : String :=
  String.ofList (if negative then '-' :: text else text)

/-- Digits of a decimal without the zeros at their end. -/
def Decimal.stripped (d : Decimal) : Nat → Decimal
  | 0 => d
  | fuel + 1 =>
    if d.digits ≠ 0 ∧ d.digits % 10 = 0 then Decimal.stripped ⟨d.digits / 10, d.point⟩ fuel else d

/-- The shortest text that reads back as the number. -/
def text (style : Style) (x : Float) : String :=
  match parts x with
  | .nan => style.nan
  | .infinite negative => signed negative style.infinity.toList
  | .finite d =>
    if d.mantissa = 0 then signed d.negative ['0', '.', '0']
    else signed d.negative (((shortest d).stripped 17).text style)

/-- The number rounded to a fixed count of decimal places, a tie of the exact value going to the
even digit. -/
def fixed (places : Nat) (x : Float) : String :=
  match parts x with
  | .nan => plain.nan
  | .infinite negative => signed negative plain.infinity.toList
  | .finite d =>
    let units := roundDiv (d.fraction.1 * Nat.pow 10 places) d.fraction.2
    let ds := Nat.toDigits 10 units
    let ds := zeros (places + 1 - ds.length) ++ ds
    let whole := ds.length - places
    signed d.negative
      (if places = 0 then ds else ds.take whole ++ '.' :: ds.drop whole)

end EntityRules.Number
