import EntityRules.Text.Markup

/-! What commands show: tables, panels and lines of text, with colours. -/

namespace EntityRules.CommandLine

/-- A text in a colour, or without one. -/
structure Phrase where
  text : String
  colour : Option String := none
deriving DecidableEq, Repr

inductive Display where
  /-- A table with a title, the names of its columns, and its rows. -/
  | table (title : String) (columns : List String) (rows : List (List Phrase))
  | panel (title text : String)
  | line (phrase : Phrase)
  /-- A line that ends in the time that the work took. -/
  | timed (text : String)
deriving DecidableEq, Repr

instance : Coe String Phrase := ⟨fun text => { text }⟩

namespace Phrase

def red (text : String) : Phrase := { text, colour := some "red" }

def yellow (text : String) : Phrase := { text, colour := some "yellow" }

def green (text : String) : Phrase := { text, colour := some "green" }

/-- The text with tags for its colour. -/
def markup (p : Phrase) : String :=
  match p.colour with
  | some colour => Text.tagged colour p.text
  | none => p.text

end Phrase

namespace Display

/-- A line with a time in milliseconds. -/
def timedText (text milliseconds : String) : String :=
  text ++ " in " ++ milliseconds ++ " ms"

/-- A text with blanks behind it up to a width. -/
def padded (width : Nat) (text : String) : String :=
  text ++ String.ofList (List.replicate (width - text.length) ' ')

/-- The widths of columns, given the texts in them row by row. -/
def widths : List (List String) → List Nat
  | [] => []
  | [row] => row.map String.length
  | row :: rest => List.zipWith max (row.map String.length) (widths rest)

/-- A row, each text as wide as its column. -/
def rowLine (columns : List Nat) (row : List String) : String :=
  "  ".intercalate (List.zipWith padded columns row)

/-- The lines of a display, without colours. -/
def lines (milliseconds : String) : Display → List String
  | table title columns rows =>
    let body := rows.map fun row => row.map (·.text)
    let all := if columns.all (· = "") then body else columns :: body
    title :: all.map (rowLine (widths all))
  | panel title text => [title, text]
  | line phrase => [phrase.text]
  | timed text => [timedText text milliseconds]

end Display

end EntityRules.CommandLine
