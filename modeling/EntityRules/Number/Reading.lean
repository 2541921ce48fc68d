import EntityRules.Number.Shortest
import EntityRules.Text.Blank
import EntityRules.Text.Digit

/-! Numbers read from texts. -/

namespace EntityRules.Number

open Binary64

/-- A run of ASCII digits, with single underscores between them where `gaps` allows them: the
number they spell, their count and the text after them. -/
def digitRun (gaps : Bool) : List Char → Nat → Nat → Nat × Nat × List Char
  | [], n, count => (n, count, [])
  | ['_'], n, count => (n, count, ['_'])
  | '_' :: d :: rest, n, count =>
    if gaps ∧ 0 < count ∧ d.isDigit then digitRun gaps rest (10 * n + (d.toNat - 48)) (count + 1)
    else (n, count, '_' :: d :: rest)
  | c :: rest, n, count =>
    if c.isDigit then digitRun gaps rest (10 * n + (c.toNat - 48)) (count + 1)
    else (n, count, c :: rest)

/-- A sign at the start of a text, and the text after it. -/
def signOf : List Char → Bool × List Char
  | '-' :: rest => (true, rest)
  | '+' :: rest => (false, rest)
  | text => (false, text)

/-- The number nearest to `digits × 10 ^ exponent`. -/
def ofDecimal (negative : Bool) (digits : Nat) (exponent : Int) : Float :=
  let top := (digitCount digits : Int) + exponent
  if digits = 0 ∨ top < -400 then ofFraction negative 0 1
  else if 400 < top then ofFraction negative (Nat.pow 10 400) 1
  else ofFraction negative (digits * Nat.pow 10 exponent.toNat) (Nat.pow 10 (-exponent).toNat)

/-- The exponent part of a decimal: none given counts as zero. -/
def exponentOf (gaps : Bool) : List Char → Option Int
  | [] => some 0
  | c :: rest =>
    if c = 'e' ∨ c = 'E' then
      let (negative, rest) := signOf rest
      match digitRun gaps rest 0 0 with
      | (n, count, []) => if count = 0 then none else some (if negative then -(n : Int) else n)
      | _ => none
    else none

/-- A decimal without its sign. -/
def unsignedDecimal (gaps negative : Bool) (text : List Char) : Option Float :=
  let (whole, wholeCount, rest) := digitRun gaps text 0 0
  match rest with
  | '.' :: rest =>
    let (part, partCount, rest) := digitRun gaps rest 0 0
    if wholeCount + partCount = 0 then none
    else
      (exponentOf gaps rest).map fun e =>
        ofDecimal negative (whole * Nat.pow 10 partCount + part) (e - partCount)
  | rest =>
    if wholeCount = 0 then none
    else (exponentOf gaps rest).map (ofDecimal negative whole ·)

/-- Reads a text without blanks around it as a number. Its digits are ASCII digits. -/
def readTrimmed? (gaps : Bool) (text : List Char) : Option Float :=
  let (negative, rest) := signOf text
  let name := String.ofList (rest.map Char.toLower)
  if name = "nan" then some (0.0 / 0.0)
  else if name = "inf" ∨ name = "infinity" then
    some (if negative then -(1.0 / 0.0) else 1.0 / 0.0)
  else unsignedDecimal gaps negative rest

/-- A text without blanks around it, its digits of any script as ASCII digits. -/
def asciiDigits (text : String) : List Char :=
  Text.trim Text.isAsciiBlank (text.toList.map fun c =>
    if Text.isAscii c then c
    else if Text.isBlank c then ' '
    else
      match Text.decimalValue? c with
      | some d => Char.ofNat (48 + d)
      | none => c)

/-- Reads a text whose digits may come from any script and that may stand between blanks. -/
def readAny? (text : String) : Option Float := readTrimmed? true (asciiDigits text)

/-- The greatest count of digits of a whole number that is read from a text. -/
def mostDigits : Nat := 4300

/-- Reads a text as a whole number; its digits may come from any script, with single underscores
between them, and it may stand between blanks. -/
def readInt? (text : String) : Option Int :=
  let (negative, rest) := signOf (asciiDigits text)
  match digitRun true rest 0 0 with
  | (n, count, []) =>
    if count = 0 ∨ mostDigits < count then none else some (if negative then -(n : Int) else n)
  | _ => none

/-- Whether two underscores stand next to each other. -/
def hasWideGap : List Char → Bool
  | [] => false
  | '_' :: '_' :: _ => true
  | _ :: rest => hasWideGap rest

/-- A text without its underscores; none of them may stand at an end or next to another. -/
def closeGaps? (text : List Char) : Option (List Char) :=
  if text.head? = some '_' ∨ text.getLast? = some '_' ∨ hasWideGap text then none
  else some (text.filter (· ≠ '_'))

/-- Reads a text as a number. It may stand between blanks, or have underscores anywhere but at its
ends; not both, for a text that is not read as it stands has to be a number once its underscores
are taken out. -/
def readField? (text : String) : Option Float :=
  (readTrimmed? false (Text.trim Text.isBlank text.toList)).orElse fun _ =>
    (closeGaps? text.toList).bind (readTrimmed? false)

/-- Whether a text begins with a whole number that is too long to be read, the sign counted in. -/
def isOverlong (text : String) : Bool :=
  let (sign, digits) := match text.toList with
    | '-' :: rest => (1, rest)
    | text => (0, text)
  let run := digits.takeWhile Char.isDigit
  run.head? ≠ some '0' && run ≠ [] && decide (mostDigits < sign + run.length)

/-- What is left of a whole number behind its leading zeros; `last` is the character before it.
Underscores may stand among the zeros, and a minus sign behind them. -/
def afterZeros? (last : Char) : List Char → Option (List Char)
  | [] => some [last]
  | c :: rest =>
    if c = '0' ∨ c = '_' then afterZeros? c rest
    else if c = '-' ∨ c.isDigit then some (c :: rest)
    else if c = '.' then some (last :: c :: rest)
    else none

/-- A whole number that begins with a digit, without leading zeros. -/
def withoutZeros? : List Char → Option (List Char)
  | [] => none
  | c :: rest =>
    if c = '0' then afterZeros? c rest else if c.isDigit then some (c :: rest) else none

/-- A whole number without what does not change it: a plus sign and leading zeros. -/
def essential? : List Char → Option (List Char)
  | '-' :: rest => (withoutZeros? rest).map ('-' :: ·)
  | '+' :: rest => withoutZeros? rest
  | text => withoutZeros? text

/-- A number without its places when all of them are zero. -/
def withoutPlaces (text : List Char) : List Char :=
  match text.dropWhile (· ≠ '.') with
  | '.' :: places =>
    if places ≠ [] ∧ places.all (· = '0') then text.takeWhile (· ≠ '.') else text
  | _ => text

/-- Reads digits without a leading zero, with a minus sign before them or none. -/
def plainWhole? (text : List Char) : Option Int :=
  let (negative, digits) := match text with
    | '-' :: rest => (true, rest)
    | text => (false, text)
  if mostDigits < text.length ∨ (digits.head? = some '0' ∧ digits ≠ ['0']) then none
  else
    match digitRun false digits 0 0 with
    | (n, count, []) => if count = 0 then none else some (if negative then -(n : Int) else n)
    | _ => none

/-- Reads a text between blanks as a whole number; a point may follow, with zeros after it. -/
def readWhole? (text : String) : Option Int :=
  (essential? (Text.trim Text.isBlank text.toList)).bind fun cs =>
    (closeGaps? (withoutPlaces cs)).bind plainWhole?

end EntityRules.Number
