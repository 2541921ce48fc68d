import EntityRules.Trouble
import EntityRules.Text.Digit

/-! Dotted paths into values. -/

namespace EntityRules

/-- Cuts a text at every separator. -/
def cutAt (separator : Char) : List Char → List (List Char)
  | [] => [[]]
  | c :: rest =>
    if c = separator then [] :: cutAt separator rest
    else
      match cutAt separator rest with
      | part :: parts => (c :: part) :: parts
      | [] => [[c]]

/-- The segments of a path. -/
def segments (path : String) : List String :=
  (cutAt '.' path.toList).map String.ofList

namespace Value

/-- The item of a list that a segment names. -/
def itemAt (items : List Value) (segment : String) : Except Trouble Value :=
  let cs := segment.toList
  let digits := (cs.takeWhile fun c => (Text.decimalValue? c).isSome).length
  if cs = [] ∨ ¬ cs.all Text.isDigit then .ok .null
  else if Number.mostDigits < digits then .error (.indexTooLong digits)
  else
    match Text.digitsValue? cs 0 with
    | none => .error (.indexWithoutValue segment)
    | some i => .ok (items[i]?.getD .null)

/-- What one segment names in a value. -/
def step (v : Value) (segment : String) : Except Trouble Value :=
  match v with
  | .obj ms | .record _ ms => .ok ((Members.get? ms segment).getD .null)
  | .arr items => itemAt items segment
  | _ => .ok .null

/-- What a list of segments names. -/
def follow : Value → List String → Except Trouble Value
  | v, [] => .ok v
  | v, s :: rest =>
    match v.step s with
    | .ok w => follow w rest
    | .error t => .error t

/-- What a path names; the empty path names nothing. -/
def resolve (root : Value) (path : String) : Except Trouble Value :=
  if path = "" then .ok .null else root.follow (segments path)

theorem follow_append (v : Value) (p q : List String) :
    v.follow (p ++ q) = (v.follow p).bind (·.follow q) := by
  induction p generalizing v with
  | nil => rfl
  | cons s rest ih =>
    simp only [List.cons_append, follow]
    cases v.step s with
    | ok w => exact ih w
    | error t => rfl

end Value

end EntityRules
