import EntityRules.Decode
import EntityRules.Encode

/-! Faults as they are reported: the name of what is wrong, and the path to it. -/

namespace EntityRules

def FaultKind.name : FaultKind → String
  | missing => "missing"
  | notText => "string_type"
  | notWhole => "int_type"
  | unreadableWhole => "int_parsing"
  | oversizedWhole => "int_parsing_size"
  | fractionalWhole => "int_from_float"
  | notFinite => "finite_number"
  | notNumber => "float_type"
  | unreadableNumber => "float_parsing"
  | notBoolean => "bool_type"
  | unreadableBoolean => "bool_parsing"
  | notMoment => "datetime_type"
  | unreadableMoment => "datetime_from_date_parsing"
  | momentOutOfRange => "datetime_parsing"
  | unknownWord => "enum"
  | notList => "list_type"
  | notMapping => "dict_type"
  | notRecord => "model_type"
  | tooDeep => "recursion_depth_exceeded"
  | rejected => "value_error"

def PathStep.encode : PathStep → Json
  | member name => .str name
  | item i => .int i
  | numberedMember n => .int n
  | nameItself => .str "[key]"

def Fault.encode (f : Fault) : Json :=
  .obj [("type", .str f.kind.name), ("loc", Encode.list PathStep.encode f.path)]

/-- What goes with a message about faults. -/
def Fault.report (fs : List Fault) : Members Json := [("errors", Encode.list Fault.encode fs)]

end EntityRules
