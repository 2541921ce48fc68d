import EntityRules.Text.Case
import EntityRules.Text.Markup
import EntityRules.Value.Text

/-! Lines of the log. -/

namespace EntityRules.LogLine

def isPrivate (name : String) : Bool := name.toList.head? = some '_'

/-- An event without its private members. -/
def publicMembers (event : Members Json) : Members Json := event.filter (!isPrivate ·.1)

/-- Puts a text between two tags, when lines are marked up. -/
def tagged (markup : Bool) (tag text : String) : String :=
  if markup then Text.tagged tag text else text

/-- The colour of a level, if it has one. -/
def colour? (level : String) : Option String :=
  if level = "ERROR" ∨ level = "CRITICAL" then some "red"
  else if level = "WARNING" then some "yellow"
  else if level = "INFO" then some "green"
  else none

def levelPart (markup : Bool) (level : String) : String :=
  match colour? level with
  | some colour => tagged markup colour level
  | none => level

/-- The last part of a dotted name. -/
def lastPart (name : String) : String :=
  String.ofList (name.toList.reverse.takeWhile (· ≠ '.')).reverse

/-- The length from which on a text is cut, and what is left of it. -/
def longText : Nat × Nat := (50, 47)

/-- A text that is too long is cut. -/
def valueText : Json → String
  | .str s =>
    if s.length > longText.1 then String.ofList (s.toList.take longText.2) ++ "..." else s
  | j => j.message

/-- The name of the logger; fails when the logger is given by something that is no text. -/
def loggerPart? (markup : Bool) (logger : Json) : Option (List String) :=
  if logger.truthy then
    match logger with
    | .str name =>
      some [if markup then tagged markup "cyan" (lastPart name) else "[" ++ lastPart name ++ "]"]
    | _ => none
  else some []

def textPart (text : Json) (write : String → String) : List String :=
  if text.truthy then [write text.message] else []

/-- The members of an event that have places of their own in a line. -/
def placed : List String := ["level", "timestamp", "logger", "event"]

def detailsPart (markup : Bool) (event : Members Json) : List String :=
  let details := (publicMembers event).filter (·.1 ∉ placed)
  if details.isEmpty then []
  else
    ["(" ++ Value.joinWith ", "
      (details.map fun m => tagged markup "dim" m.1 ++ "=" ++ valueText m.2) ++ ")"]

/-- The line of an event; none when its logger is no text. -/
def render? (markup : Bool) (event : Members Json) : Option String :=
  let get (name : String) (default : String) := (Members.get? event name).getD (.str default)
  (loggerPart? markup (get "logger" "")).map fun logger =>
    Value.joinWith " "
      (textPart (get "timestamp" "") id ++ logger ++
        [levelPart markup (Text.capitals (get "level" "INFO").message)] ++
        textPart (get "event" "") (tagged markup "bold") ++ detailsPart markup event)

end EntityRules.LogLine
