import EntityRules.Text.Case
import EntityRules.Value.Path
import EntityRules.Value.Text

/-! Names of files, cut at their slashes. -/

namespace EntityRules

/-- How the text of a file is read, which the suffix of its name tells. -/
inductive FileFormat where
  | json
  | yaml
deriving DecidableEq, Repr

/-- The name of a file, cut at its slashes. Empty parts and single points stand for nothing. -/
structure FileName where
  /-- The slashes that the name starts with: none, one, or exactly two. -/
  start : String
  parts : List String
deriving DecidableEq, Repr

namespace FileName

def startOf (text : List Char) : String :=
  match text with
  | '/' :: '/' :: '/' :: _ => "/"
  | '/' :: '/' :: _ => "//"
  | '/' :: _ => "/"
  | _ => ""

def ofString (text : String) : FileName :=
  { start := startOf text.toList
    parts := ((cutAt '/' text.toList).map String.ofList).filter fun p => p ≠ "" ∧ p ≠ "." }

def text (f : FileName) : String :=
  if f.start = "" ∧ f.parts = [] then "." else f.start ++ Value.joinWith "/" f.parts

/-- The last part. -/
def last (f : FileName) : String := f.parts.getLast?.getD ""

/-- What follows the last point of a part, the point included. A part has no suffix when the point
is its first or its last character. -/
def suffixOf (part : List Char) : List Char :=
  let ending := (part.reverse.takeWhile (· ≠ '.')).reverse
  if ending = [] ∨ part.length ≤ ending.length + 1 then [] else '.' :: ending

/-- The suffix of the last part in small letters. -/
def suffix (f : FileName) : String := Text.smalls (String.ofList (suffixOf f.last.toList))

/-- How the text of a file is read. -/
def format? (f : FileName) : Option FileFormat :=
  if f.suffix ∈ [".yaml", ".yml"] then some .yaml
  else if f.suffix = ".json" then some .json
  else none

end FileName

end EntityRules
