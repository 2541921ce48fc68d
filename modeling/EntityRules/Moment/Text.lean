import EntityRules.Moment
import EntityRules.Number.Reading

/-! Moments as texts: a date, a separator, a time of day, and an offset. -/

namespace EntityRules.Moment

open Number

/-- A number in decimal digits, filled with zeros on the left. -/
def padded (width n : Nat) : List Char :=
  let ds := Nat.toDigits 10 n
  List.replicate (width - ds.length) '0' ++ ds

def offsetText (o : Int) : List Char :=
  (if o < 0 then '-' else '+') :: (padded 2 (o.natAbs / 60) ++ ':' :: padded 2 (o.natAbs % 60))

/-- Writes a moment with a given separator and a given text for UTC. -/
def textWith (separator : Char) (utc : String) (m : Moment) : String :=
  String.ofList <|
    padded 4 m.year ++ '-' :: padded 2 m.month ++ '-' :: padded 2 m.day ++
    separator :: padded 2 m.hour ++ ':' :: padded 2 m.minute ++ ':' :: padded 2 m.second ++
    (if m.micro = 0 then [] else '.' :: padded 6 m.micro) ++
    match m.offset with
    | none => []
    | some o => if o = 0 then utc.toList else offsetText o

/-- How documents write a moment. -/
def text (m : Moment) : String := m.textWith 'T' "Z"

/-- How a moment answered on its own is written. -/
def isoText (m : Moment) : String := m.textWith 'T' "+00:00"

/-- How messages write a moment. -/
def plainText (m : Moment) : String := m.textWith ' ' "+00:00"

/-- A given count of ASCII digits. -/
def digits? : Nat → List Char → Nat → Option (Nat × List Char)
  | 0, text, n => some (n, text)
  | k + 1, c :: text, n =>
    if c.isDigit then digits? k text (10 * n + (c.toNat - 48)) else none
  | _ + 1, [], _ => none

def dateFields? (text : List Char) : Option (Nat × Nat × Nat × List Char) :=
  match digits? 4 text 0 with
  | some (y, '-' :: text) =>
    match digits? 2 text 0 with
    | some (m, '-' :: text) => (digits? 2 text 0).map fun r => (y, m, r.1, r.2)
    | _ => none
  | _ => none

/-- The offset at the end of a text. -/
def offset? (text : List Char) : Option (Option Int) :=
  let signed (negative : Bool) (text : List Char) : Option (Option Int) :=
    match digits? 2 text 0 with
    | some (h, text) =>
      let text := match text with
        | ':' :: text => text
        | text => text
      match digits? 2 text 0 with
      | some (m, []) =>
        let o : Int := 60 * h + m
        if m < 60 then some (some (if negative then -o else o)) else none
      | _ => none
    | none => none
  match text with
  | [] => some none
  | ['Z'] | ['z'] => some (some 0)
  | '+' :: text => signed false text
  | '-' :: text | '\u2212' :: text => signed true text
  | _ => none

/-- The microseconds that the digits of a fraction of a second spell, however many there are; those
beyond the sixth are dropped. -/
def fraction? (text : List Char) : Option (Nat × List Char) :=
  let digits := text.takeWhile Char.isDigit
  let (n, kept, _) := digitRun false (digits.take 6) 0 0
  if digits = [] then none else some (n * Nat.pow 10 (6 - kept), text.dropWhile Char.isDigit)

def timeFields? (text : List Char) : Option (Nat × Nat × Nat × Nat × List Char) :=
  match digits? 2 text 0 with
  | some (h, ':' :: text) =>
    match digits? 2 text 0 with
    | some (m, ':' :: text) =>
      match digits? 2 text 0 with
      | some (s, '.' :: text) | some (s, ',' :: text) =>
        (fraction? text).map fun r => (h, m, s, r.1, r.2)
      | some (s, text) => some (h, m, s, 0, text)
      | none => none
    | some (m, text) => some (h, m, 0, 0, text)
    | none => none
  | _ => none

def isSeparator (c : Char) : Bool := c = 'T' || c = 't' || c = ' ' || c = '_'

/-- Reads a date with a time of day. -/
def readFull (text : List Char) : Except Trouble Moment :=
  match dateFields? text with
  | some (y, mo, d, c :: rest) =>
    if isSeparator c then
      match timeFields? rest with
      | some (h, mi, s, us, rest) =>
        match offset? rest with
        | some o => ofFields ⟨y, mo, d, h, mi, s, us, o⟩
        | none => .error .unreadable
      | none => .error .unreadable
    else .error .unreadable
  | _ => .error .unreadable

/-- Reads a date alone as its midnight. -/
def readDate (text : List Char) : Except Trouble Moment :=
  match dateFields? text with
  | some (y, m, d, []) => ofFields ⟨y, m, d, 0, 0, 0, 0, none⟩
  | _ => .error .unreadable

/-- Counts above this size are milliseconds, others seconds. -/
def secondsLimit : Nat := 20000000000

/-- The moment that a whole count of seconds or milliseconds names. -/
def ofCount (n : Int) : Except Trouble Moment :=
  ofInstant (if secondsLimit < n.natAbs then n * 1000 else n * microsPerSecond)

/-- The moment that a fractional count of seconds or milliseconds names, to the nearest
microsecond. -/
def ofFractionalCount (x : Float) : Except Trouble Moment :=
  let unit : Int := if x.abs > 2e10 then 1000 else microsPerSecond
  match Binary64.parts x with
  | .finite d =>
    let whole := d.numerator / d.fraction.2
    let rest := (x - (Binary64.ofInt? whole).getD 0) * (Binary64.ofInt? unit).getD 0
    match Binary64.parts rest with
    | .finite r =>
      let micros : Int := ↑((2 * r.fraction.1 + r.fraction.2) / (2 * r.fraction.2))
      ofInstant (whole * unit + micros)
    | _ => .error .unreadable
  | _ => .error .unreadable

/-- Reads a text as a count: digits with a sign, or a decimal with a point. -/
def readCount (text : List Char) : Except Trouble Moment :=
  let (negative, unsigned) := signOf text
  let (n, count, rest) := digitRun false unsigned 0 0
  match rest with
  | [] => if count = 0 then .error .unreadable else ofCount (if negative then -(n : Int) else n)
  | '.' :: _ =>
    match unsignedDecimal false negative unsigned with
    | some x => ofFractionalCount x
    | none => .error .unreadable
  | _ => .error .unreadable

/-- Reads in one way, or in another one where that makes nothing of a text. -/
def orElse (first : Except Trouble Moment) (other : Unit → Except Trouble Moment) :
    Except Trouble Moment :=
  match first with
  | .error .unreadable => other ()
  | answer => answer

/-- Reads a text as a moment. -/
def read (text : String) : Except Trouble Moment :=
  let cs := text.toList
  orElse (readFull cs) fun _ => orElse (readCount cs) fun _ => readDate cs

end EntityRules.Moment
