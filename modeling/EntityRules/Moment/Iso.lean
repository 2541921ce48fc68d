import EntityRules.Moment.Text

/-! Instants in the formats of ISO 8601. A date alone is its midnight. -/

namespace EntityRules.Moment

/-- The first day of the first week of a year, which is the one with the first Thursday. -/
def firstMonday (year : Nat) : Int :=
  let first := dayNumber year 1 1
  let weekday := (first + 3) % 7
  if weekday ≤ 3 then first - weekday else first - weekday + 7

/-- The date of a day of a week; weeks and their days are counted from one. -/
def dateOfWeek? (year week day : Nat) : Option (Nat × Nat × Nat) :=
  let start := firstMonday year
  let weeks := (firstMonday (year + 1) - start) / 7
  if 1 ≤ year ∧ 1 ≤ week ∧ (week : Int) ≤ weeks ∧ 1 ≤ day ∧ day ≤ 7 then
    some (dateOf (start + 7 * (week - 1 : Nat) + (day - 1 : Nat)))
  else none

/-- The count of characters of the date that a text begins with. Behind a week without a day, and
without hyphens, times have pairs of digits, so the count of digits tells whether there is a day. -/
def dateLength (text : List Char) : Nat :=
  match text.drop 4 with
  | ['-', 'W', _] => 7
  | '-' :: 'W' :: _ :: _ :: '-' :: _ :: c :: _ => if c.isDigit then 8 else 10
  | '-' :: 'W' :: _ :: _ :: '-' :: _ => 10
  | '-' :: 'W' :: _ => 8
  | '-' :: _ => 10
  | 'W' :: _ :: _ :: rest =>
    let digits := (rest.takeWhile Char.isDigit).length
    if digits < 2 then 7 + digits else if digits % 2 = 1 then 7 else 8
  | _ => 8

/-- Reads a hyphen where hyphens are used. -/
def hyphen? (used : Bool) (text : List Char) : Option (List Char) :=
  if used then
    match text with
    | '-' :: text => some text
    | _ => none
  else some text

/-- Reads a date that is a whole text: its year, month and day. -/
def isoDate? (text : List Char) : Option (Nat × Nat × Nat) := do
  let (year, text) ← digits? 4 text 0
  let used := text.head? = some '-'
  let text := if used then text.tail else text
  match text with
  | 'W' :: text =>
    let (week, text) ← digits? 2 text 0
    if text = [] then dateOfWeek? year week 1
    else
      let (day, _) ← digits? 1 (← hyphen? used text) 0
      dateOfWeek? year week day
  | text =>
    let (month, text) ← digits? 2 text 0
    let (day, _) ← digits? 2 (← hyphen? used text) 0
    return (year, month, day)

/-- Whether a text ends here. -/
def isEnd : List Char → Bool
  | [] => true
  | c :: _ => c.val = 0

/-- A time of day, or the size of an offset. -/
structure Clock where
  hour : Nat := 0
  minute : Nat := 0
  second : Nat := 0
  micro : Nat := 0
  /-- Whether characters are left over that belong to no part of it. -/
  isOpen : Bool := false

namespace Clock

/-- Reads the fraction of a second; digits beyond the sixth are dropped. -/
def withFraction? (c : Clock) (text : List Char) : Option Clock :=
  let kept := text.take 6
  (digits? kept.length kept 0).map fun r =>
    { c with
      micro := r.1 * Nat.pow 10 (6 - kept.length)
      isOpen := !isEnd ((text.drop 6).dropWhile Char.isDigit) }

/-- Gives a clock its hour, its minute or its second, told apart by how many parts are to follow. -/
def withPart (c : Clock) (following n : Nat) : Clock :=
  match following with
  | 2 => { c with hour := n }
  | 1 => { c with minute := n }
  | _ => { c with second := n }

/-- Reads parts of a time, of which there are at most three. The first one settles whether colons
stand between them. A fraction may follow any part, and the seconds need no point before it. A
single ASCII character may be left over, which leaves the clock open. -/
def readParts? (colons : Bool) : Nat → Clock → List Char → Option Clock
  | 0, c, text => c.withFraction? text
  | following + 1, c, text =>
    match digits? 2 text 0 with
    | none => none
    | some (n, rest) =>
      let c := c.withPart following n
      let colons := if following = 2 then rest.head? == some ':' else colons
      match rest with
      | [] => some c
      | [mark] =>
        if Text.isAscii mark then some { c with isOpen := !isEnd [mark] } else none
      | mark :: next =>
        if colons && mark = ':' then readParts? colons following c next
        else if mark = '.' ∨ mark = ',' then c.withFraction? next
        else if colons then none
        else readParts? colons following c rest

/-- Reads a time of day, or the size of an offset. -/
def read? (text : List Char) : Option Clock := readParts? false 3 {} text

/-- The microseconds of an offset. -/
def micros (c : Clock) : Int :=
  (((c.hour * 60 + c.minute : Nat) * 60 + c.second : Nat) : Int) * microsPerSecond + c.micro

/-- The whole seconds of an offset. -/
def seconds (c : Clock) : Nat := (c.hour * 60 + c.minute) * 60 + c.second

end Clock

/-- Reads an offset in microseconds; one of less than a second is none. -/
def isoOffset? (text : List Char) : Option Int :=
  let signed (sign : Int) (text : List Char) : Option Int :=
    match Clock.read? text with
    | some c =>
      if c.isOpen ∨ 86400 ≤ c.seconds then none
      else some (if c.seconds = 0 then 0 else sign * c.micros)
    | none => none
  match text with
  | 'Z' :: text => if isEnd text then some 0 else none
  | '+' :: text => signed 1 text
  | '-' :: text => signed (-1) text
  | _ => none

/-- The instant that fields name at an offset in microseconds. -/
def instantAt? (f : Fields) (offset : Int) : Option Int :=
  (ofFields f).toOption.map fun m => m.wall - offset

/-- Reads the time of day behind a date. -/
def withClock? (year month day : Nat) (text : List Char) : Option Int := do
  let isZone (c : Char) : Bool := c = '+' || c = '-' || c = 'Z'
  let zone := text.dropWhile (!isZone ·)
  let c ← Clock.read? (text.takeWhile (!isZone ·))
  let f : Fields := ⟨year, month, day, c.hour, c.minute, c.second, c.micro, none⟩
  if zone = [] then if c.isOpen then none else instantAt? f 0
  else instantAt? f (← isoOffset? zone)

/-- Reads a text as an instant: the microseconds from 1970-01-01T00:00Z to it. -/
def readInstant? (text : String) : Option Int := do
  let cs := text.toList
  let length := dateLength cs
  let (year, month, day) ← isoDate? (cs.take length)
  match cs.drop length with
  | [] => instantAt? ⟨year, month, day, 0, 0, 0, 0, none⟩ 0
  | _ :: rest => withClock? year month day rest

end EntityRules.Moment
