import EntityRules.Json
import EntityRules.Json.Characters
import EntityRules.Number.Reading

/-! Documents read from text. -/

namespace EntityRules.Json

open Number

/-- Why a text is not read as a document. -/
inductive ReadTrouble where
  | malformed
  /-- Lists and objects stand inside each other too deeply. -/
  | tooDeep
  /-- A whole number has too many digits. -/
  | tooLong
deriving DecidableEq, Repr

/-- A number without its sign: digits, a fraction, an exponent. A leading zero stands alone. In YAML
a number with an exponent needs a point before it and a sign of the exponent; it is a text
otherwise. -/
def numberBody (dialect : Dialect) (negative : Bool) (text : List Char) :
    Except ReadTrouble (Json × List Char) :=
  let (whole, count, rest) :=
    match text with
    | '0' :: rest => (0, 1, rest)
    | text => digitRun false text 0 0
  if count = 0 then .error .malformed
  else
    let (digits, places, rest') :=
      match rest with
      | '.' :: rest' =>
        let (part, places, rest'') := digitRun false rest' 0 0
        if places = 0 then (whole, 0, rest) else (whole * Nat.pow 10 places + part, places, rest'')
      | _ => (whole, 0, rest)
    let exponent : Option (Int × Bool × List Char) :=
      match rest' with
      | c :: more =>
        if c = 'e' ∨ c = 'E' then
          let (minus, more') := signOf more
          let (e, eCount, more'') := digitRun false more' 0 0
          if eCount = 0 then none
          else some (if minus then -(e : Int) else e, more.length ≠ more'.length, more'')
        else none
      | [] => none
    match exponent with
    | none =>
      if 0 < places then .ok (.float (ofDecimal negative digits (-(places : Int))), rest')
      else if dialect = .json ∧ mostDigits < count then .error .tooLong
      else .ok (.int (if negative then -(digits : Int) else digits), rest')
    | some (e, isSigned, rest'') =>
      if dialect = .yaml ∧ ¬(0 < places ∧ isSigned) then
        let written := text.take (text.length - rest''.length)
        .ok (.str (String.ofList (if negative then '-' :: written else written)), rest'')
      else .ok (.float (ofDecimal negative digits (e - places)), rest'')

/-- The words that stand for a document. -/
def word? (dialect : Dialect) (text : List Char) : Option (Json × List Char) :=
  let words : List (String × Json) :=
    [("null", .null), ("true", .bool true), ("false", .bool false)] ++
      (if dialect = .json then
        [("NaN", .float (0.0 / 0.0)), ("Infinity", .float (1.0 / 0.0)),
          ("-Infinity", .float (-(1.0 / 0.0)))]
      else [])
  words.findSome? fun w => (after? w.1.toList text).map (w.2, ·)

/-- Reads a text after its opening quote. -/
def textFrom (dialect : Dialect) (text : List Char) : Except ReadTrouble (String × List Char) :=
  match textBody? dialect text with
  | some r => .ok r
  | none => .error .malformed

/-- Reads a name and the colon behind it. -/
def nameFrom (dialect : Dialect) (text : List Char) : Except ReadTrouble (String × List Char) :=
  match text with
  | '"' :: body =>
    match textFrom dialect body with
    | .error why => .error why
    | .ok (name, rest) =>
      match dialect.skipSpace rest with
      | ':' :: rest =>
        if isName dialect (text.take (text.length - (rest.length + 1))) then .ok (name, rest)
        else .error .malformed
      | _ => .error .malformed
  | _ => .error .malformed

/-- Reads a value that has no parts. -/
def leafFrom (dialect : Dialect) (text : List Char) : Except ReadTrouble (Json × List Char) :=
  match word? dialect text with
  | some r => .ok r
  | none =>
    match text with
    | '"' :: rest => (textFrom dialect rest).map fun r => (.str r.1, r.2)
    | '-' :: rest => numberBody dialect true rest
    | _ => numberBody dialect false text

mutual

/-- Reads a value with at most `room` levels inside each other. -/
def valueFrom (dialect : Dialect) :
    Nat → Nat → List Char → Except ReadTrouble (Json × List Char)
  | 0, _, _ => .error .malformed
  | fuel + 1, room, text =>
    match text, room with
    | '[' :: _, 0 | '\x7b' :: _, 0 => .error .tooDeep
    | '[' :: rest, room + 1 =>
      match dialect.skipSpace rest with
      | ']' :: rest' => .ok (.arr [], rest')
      | rest' => (itemsFrom dialect fuel room rest').map fun r => (.arr r.1, r.2)
    | '\x7b' :: rest, room + 1 =>
      match dialect.skipSpace rest with
      | '\x7d' :: rest' => .ok (.obj [], rest')
      | rest' => (membersFrom dialect fuel room rest' []).map fun r => (.obj r.1, r.2)
    | text, 0 =>
      match leafFrom dialect text with
      | .error why => .error why
      | .ok r => if dialect.countsLeaves then .error .tooDeep else .ok r
    | text, _ => leafFrom dialect text

/-- The items of a list, up to and including its closing bracket. -/
def itemsFrom (dialect : Dialect) :
    Nat → Nat → List Char → Except ReadTrouble (List Json × List Char)
  | 0, _, _ => .error .malformed
  | fuel + 1, room, text =>
    match valueFrom dialect fuel room text with
    | .error why => .error why
    | .ok (v, rest) =>
      match dialect.skipSpace rest with
      | ']' :: rest' => .ok ([v], rest')
      | ',' :: rest' =>
        (itemsFrom dialect fuel room (dialect.skipSpace rest')).map fun r => (v :: r.1, r.2)
      | _ => .error .malformed

/-- The members of an object, up to and including its closing brace. A repeated name keeps its
first place and takes its last value. -/
def membersFrom (dialect : Dialect) :
    Nat → Nat → List Char → Members Json → Except ReadTrouble (Members Json × List Char)
  | 0, _, _, _ => .error .malformed
  | fuel + 1, room, text, done =>
    match nameFrom dialect text with
    | .error why => .error why
    | .ok (name, rest) =>
      match valueFrom dialect fuel room (dialect.skipSpace rest) with
      | .error why => .error why
      | .ok (v, rest) =>
        let done := Members.put done name v
        match dialect.skipSpace rest with
        | '\x7d' :: rest => .ok (done, rest)
        | ',' :: rest => membersFrom dialect fuel room (dialect.skipSpace rest) done
        | _ => .error .malformed

end

/-- Reads a whole text as one document with at most `room` levels inside each other. -/
def readWithin (dialect : Dialect) (room : Nat) (text : String) : Except ReadTrouble Json :=
  let cs := text.toList
  match valueFrom dialect (cs.length + 1) room (dialect.skipSpace cs) with
  | .error why => .error why
  | .ok (v, rest) => if dialect.skipSpace rest = [] then .ok v else .error .malformed

/-- Reads a whole text as one document. -/
def read (dialect : Dialect) (text : String) : Except ReadTrouble Json :=
  readWithin dialect dialect.deepest text

end EntityRules.Json
