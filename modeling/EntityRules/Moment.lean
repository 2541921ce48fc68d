import EntityRules.Number.Binary64

/-! Moments: a date and a time of day to the microsecond, with an offset from UTC or without one. -/

namespace EntityRules

def isLeapYear (y : Nat) : Bool := y % 4 = 0 && (y % 100 ≠ 0 || y % 400 = 0)

def daysInMonth (y m : Nat) : Nat :=
  if m = 2 then (if isLeapYear y then 29 else 28)
  else if m = 4 ∨ m = 6 ∨ m = 9 ∨ m = 11 then 30
  else 31

/-- The fields of a moment, in range or not. -/
structure Moment.Fields where
  year : Nat
  month : Nat
  day : Nat
  hour : Nat
  minute : Nat
  second : Nat
  micro : Nat
  offset : Option Int
deriving DecidableEq, Repr

/-- Whether fields stand on the calendar of the years 0 to 9999. -/
def Moment.Fields.OnCalendar (f : Moment.Fields) : Prop :=
  f.year ≤ 9999 ∧ 1 ≤ f.month ∧ f.month ≤ 12 ∧
  1 ≤ f.day ∧ f.day ≤ daysInMonth f.year f.month ∧
  f.hour < 24 ∧ f.minute < 60 ∧ f.second < 60 ∧ f.micro < 1000000 ∧
  ∀ o ∈ f.offset, -1440 < o ∧ o < 1440

/-- Whether fields name a moment, which is of the years 1 to 9999. -/
def Moment.Fields.InRange (f : Moment.Fields) : Prop := 1 ≤ f.year ∧ f.OnCalendar

instance (f : Moment.Fields) : Decidable f.OnCalendar := by
  unfold Moment.Fields.OnCalendar; infer_instance

instance (f : Moment.Fields) : Decidable f.InRange := by
  unfold Moment.Fields.InRange; infer_instance

/-- A moment without an offset is naive: it can be ordered only among its like, and counts as UTC
where a query needs an instant. -/
structure Moment extends Moment.Fields where
  inRange : toFields.InRange
deriving DecidableEq

/-- Why something names no moment. -/
inductive Moment.Trouble where
  | unreadable
  /-- It names a time of the year 0. -/
  | outOfRange
deriving DecidableEq, Repr

namespace Moment

def ofFields (f : Fields) : Except Trouble Moment :=
  if h : f.InRange then .ok ⟨f, h⟩
  else if f.OnCalendar then .error .outOfRange
  else .error .unreadable

@[simp] theorem ofFields_toFields (m : Moment) : ofFields m.toFields = .ok m := by
  simp [ofFields, m.inRange]

/-- The days from 1970-01-01 to a date. A year is taken to begin in March, so that the day added
in leap years is its last. -/
def dayNumber (year month day : Nat) : Int :=
  let y : Int := if month ≤ 2 then (year : Int) - 1 else year
  let m : Int := if 2 < month then (month : Int) - 3 else month + 9
  365 * y + y / 4 - y / 100 + y / 400 + (153 * m + 2) / 5 + day - 719469

/-- The date that is a given count of days from 1970-01-01. -/
def dateOf (days : Int) : Nat × Nat × Nat :=
  let z := days + 719468
  let era := z / 146097
  let doe := z % 146097
  let yoe := (doe - doe / 1460 + doe / 36524 - doe / 146096) / 365
  let doy := doe - (365 * yoe + yoe / 4 - yoe / 100)
  let mp := (5 * doy + 2) / 153
  let d := doy - (153 * mp + 2) / 5 + 1
  let m := if mp < 10 then mp + 3 else mp - 9
  let y := yoe + era * 400 + if m ≤ 2 then 1 else 0
  (y.toNat, m.toNat, d.toNat)

def microsPerSecond : Int := 1000000

/-- The microseconds from 1970-01-01T00:00 to the moment, both by the moment's own clock. -/
def wall (m : Moment) : Int :=
  (((dayNumber m.year m.month m.day * 24 + m.hour) * 60 + m.minute) * 60 + m.second) *
    microsPerSecond + m.micro

/-- The microseconds from 1970-01-01T00:00Z to the moment; a naive moment counts as UTC. -/
def instant (m : Moment) : Int := m.wall - m.offset.getD 0 * 60 * microsPerSecond

/-- The same moment, marked UTC if it is naive. -/
def asUtc (m : Moment) : Moment :=
  match h : m.offset with
  | some _ => m
  | none =>
    { m with
      offset := some 0
      inRange := by
        have := m.inRange
        simp only [Fields.InRange, Fields.OnCalendar, h] at this ⊢
        simp_all }

/-- The moment, in UTC, that is a given count of microseconds from 1970-01-01T00:00Z. -/
def ofInstant (micros : Int) : Except Trouble Moment :=
  let seconds := micros / microsPerSecond
  let days := seconds / 86400
  let rest := (seconds % 86400).toNat
  let (y, m, d) := dateOf days
  if days < dayNumber 0 1 1 then .error .unreadable
  else
    ofFields {
      year := y, month := m, day := d
      hour := rest / 3600, minute := rest / 60 % 60, second := rest % 60
      micro := (micros % microsPerSecond).toNat, offset := some 0 }

/-- Moments that both have an offset, or both have none, can be ordered. -/
def order? (a b : Moment) : Option Ordering :=
  match a.offset, b.offset with
  | some _, some _ => some (compare a.instant b.instant)
  | none, none => some (compare a.wall b.wall)
  | _, _ => none

/-- The seconds from one instant to a later one. -/
def secondsBetween (start finish : Int) : Float :=
  (Binary64.ofQuotient? (finish - start) microsPerSecond).getD 0

/-- The seconds from 1970-01-01T00:00Z to a moment. -/
def seconds (m : Moment) : Float := (Binary64.ofQuotient? m.instant microsPerSecond).getD 0

end Moment

end EntityRules
