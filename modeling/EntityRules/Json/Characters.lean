import EntityRules.Json.Dialect
import EntityRules.Text.Half

/-! Texts inside documents: characters between two double quotes, with escapes. -/

namespace EntityRules.Json

/-- The text after a given beginning. -/
def after? : List Char → List Char → Option (List Char)
  | [], text => some text
  | _ :: _, [] => none
  | c :: cs, d :: text => if c = d then after? cs text else none

def hexValue? (c : Char) : Option Nat :=
  if c.isDigit then some (c.toNat - 48)
  else if 'a' ≤ c ∧ c ≤ 'f' then some (c.toNat - 87)
  else if 'A' ≤ c ∧ c ≤ 'F' then some (c.toNat - 55)
  else none

/-- Four hexadecimal digits. -/
def unit? : List Char → Option (Nat × List Char)
  | a :: b :: c :: d :: rest =>
    match hexValue? a, hexValue? b, hexValue? c, hexValue? d with
    | some a, some b, some c, some d => some (((a * 16 + b) * 16 + c) * 16 + d, rest)
    | _, _, _, _ => none
  | _ => none

/-- A character given by its number; a half of a pair is kept as such. -/
def numbered? (text : List Char) : Option (Char × List Char) :=
  (unit? text).map fun (n, rest) =>
    (if Text.firstHalf ≤ n ∧ n < Text.firstHalf + Text.halfCount then Text.half n
      else Char.ofNat n, rest)

/-- A character after a backslash. -/
def escape? : List Char → Option (Char × List Char)
  | '"' :: rest => some ('"', rest)
  | '\\' :: rest => some ('\\', rest)
  | '/' :: rest => some ('/', rest)
  | 'b' :: rest => some ('\x08', rest)
  | 'f' :: rest => some ('\x0c', rest)
  | 'n' :: rest => some ('\n', rest)
  | 'r' :: rest => some ('\r', rest)
  | 't' :: rest => some ('\t', rest)
  | 'u' :: rest => numbered? rest
  | _ => none

/-- The end of a line, as the character that it counts as, and the text after it. -/
def lineEnd? : List Char → Option (Char × List Char)
  | '\r' :: '\n' :: rest => some ('\n', rest)
  | c :: rest =>
    if c = '\u2028' ∨ c = '\u2029' then some (c, rest)
    else if isBreak c then some ('\n', rest)
    else none
  | [] => none

/-- Whether a line is a mark between documents. -/
def startsDocument : List Char → Bool
  | a :: b :: c :: rest =>
    a = b && b = c && (a = '-' || a = '.') &&
      (rest.head?.map fun d => isInlineBlank d || isBreak d).getD true
  | _ => false

/-- The ends of further empty lines; no mark between documents may follow them. -/
def lineEnds? : Nat → List Char → Option (List Char × List Char)
  | 0, _ => none
  | fuel + 1, text =>
    if startsDocument text then none
    else
      let text := text.dropWhile isInlineBlank
      match lineEnd? text with
      | some (c, rest) => (lineEnds? fuel rest).map fun r => (c :: r.1, r.2)
      | none => some ([], text)

/-- What the ends of lines are folded into: a single line feed into a space, and of several ones the
first into nothing. -/
def folded (first : Char) (others : List Char) : List Char :=
  if first ≠ '\n' then first :: others else if others = [] then [' '] else others

/-- The rest of a text after its opening quote; `done` holds what was read, last first. -/
def plainBody? : Nat → List Char → List Char → Option (List Char × List Char)
  | 0, _, _ => none
  | _ + 1, [], _ => none
  | fuel + 1, c :: rest, done =>
    if c = '"' then some (Text.joinPairs done.reverse, rest)
    else if c = '\\' then
      match escape? rest with
      | some (e, rest) => plainBody? fuel rest (e :: done)
      | none => none
    else if c.toNat < 32 then none
    else plainBody? fuel rest (c :: done)

/-- As `plainBody?`, with lines folded and halves of pairs kept apart. -/
def foldedBody? : Nat → List Char → List Char → Option (List Char × List Char)
  | 0, _, _ => none
  | _ + 1, [], _ => none
  | fuel + 1, c :: rest, done =>
    if c = '"' then some (done.reverse, rest)
    else if c = '\\' then
      match escape? rest with
      | some (e, rest) => foldedBody? fuel rest (e :: done)
      | none => none
    else
      let blanks := (c :: rest).takeWhile isInlineBlank
      match lineEnd? ((c :: rest).drop blanks.length) with
      | some (first, rest) =>
        match lineEnds? (rest.length + 1) rest with
        | some (others, rest) => foldedBody? fuel rest ((folded first others).reverse ++ done)
        | none => none
      | none => foldedBody? fuel rest (c :: done)

/-- Reads the rest of a text after its opening quote. -/
def textBody? (dialect : Dialect) (text : List Char) : Option (String × List Char) :=
  let body := match dialect with
    | .json => plainBody? (text.length + 1) text []
    | .yaml => foldedBody? (text.length + 1) text []
  body.map fun r => (String.ofList r.1, r.2)

/-- The greatest distance from the opening quote of a name to its colon in YAML. -/
def longestName : Nat := 1024

/-- Whether what is written from the opening quote of a name to its colon makes a name: in YAML it
has to stand on one line and be short. -/
def isName (dialect : Dialect) (written : List Char) : Bool :=
  match dialect with
  | .json => true
  | .yaml => !written.any isBreak && decide (written.length ≤ longestName)

end EntityRules.Json
