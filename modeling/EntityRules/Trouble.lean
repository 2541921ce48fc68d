import EntityRules.Number.Reading
import EntityRules.Value.Text

/-! What can keep a condition from being evaluated, and the message for each. -/

namespace EntityRules

inductive Trouble where
  /-- A whole number beyond the range of doubles was used as a number. -/
  | numberTooLarge
  /-- A list or an object was looked up among names. -/
  | notAKey (type : String)
  /-- A segment of a path counts as digits but spells no number. -/
  | indexWithoutValue (segment : String)
  /-- A segment of a path begins with too many digits. -/
  | indexTooLong (digits : Nat)
  /-- A single value stands where a list is needed. -/
  | notAList (type : String)
  /-- A single value stands where a container is needed. -/
  | notAContainer (type : String)
  /-- A part of a text is asked for by something that is not a text. -/
  | notAPart (type : String)
  | wholeOfInfinity
  | wholeOfNaN
  /-- A parameter is absent. -/
  | parameterMissing (owner name : String) (parameters : Members Json)
  | parameterNotNumber (owner name : String) (value : Json)
  | quantityNotNumber
  | operatorUnknown (owner : String) (operator : Json)
  | diceOutOfRange (dice sides : Int)
  | negationOfMany (count : Nat)
  | scoresNotMapping (type : String)
  | turnRangeNotMapping
  /-- A registered function failed with a message of its own. -/
  | functionFailed (message : String)

namespace Trouble

/-- A message with the details that go with it, if there are any. -/
def withDetails (message : String) (details : Members Json) : String :=
  if details.isEmpty then message
  else message ++ " (Details: " ++ (Json.obj details).message ++ ")"

/-- How much of a quoted text stands in a message. -/
def quotedLength : Nat := 200

def message : Trouble → String
  | numberTooLarge => "int too large to convert to float"
  | notAKey type => "unhashable type: '" ++ type ++ "'"
  | indexWithoutValue segment =>
    "invalid literal for int() with base 10: " ++
      String.ofList ((Text.quoted segment).toList.take quotedLength)
  | indexTooLong digits =>
    "Exceeds the limit (" ++ toString Number.mostDigits ++
      " digits) for integer string conversion: value has " ++ toString digits ++
      " digits; use sys.set_int_max_str_digits() to increase the limit"
  | notAList type => "'" ++ type ++ "' object is not iterable"
  | notAContainer type => "argument of type '" ++ type ++ "' is not iterable"
  | notAPart type => "'in <string>' requires string as left operand, not " ++ type
  | wholeOfInfinity => "cannot convert float infinity to integer"
  | wholeOfNaN => "cannot convert float NaN to integer"
  | parameterMissing owner name parameters =>
    withDetails ("'" ++ owner ++ "' requires parameter '" ++ name ++ "'")
      [("parameters", .obj parameters)]
  | parameterNotNumber owner name value =>
    withDetails ("'" ++ owner ++ "' parameter '" ++ name ++ "' must be numeric") [("value", value)]
  | quantityNotNumber => "'has_item' parameter 'quantity' must be numeric"
  | operatorUnknown owner operator =>
    "'" ++ owner ++ "' has unsupported operator " ++ operator.innerMessage
  | diceOutOfRange dice sides =>
    withDetails "'dice_roll' needs dice >= 0 and sides >= 1"
      [("dice", .int dice), ("sides", .int sides)]
  | negationOfMany count =>
    withDetails "'not' requires exactly one condition" [("count", .int count)]
  | scoresNotMapping type =>
    withDetails "behavior scores must be a mapping" [("type", .str type)]
  | turnRangeNotMapping => "'turn_range' must be a mapping with min/max"
  | functionFailed message => message

end Trouble

end EntityRules
