import EntityRules.Evaluation
import EntityRules.Value.Compare

/-! Reading the parameters of condition functions and the data of contextual conditions. -/

namespace EntityRules.Parameters

/-- A parameter; an absent one is null. -/
def get (ps : Members Json) (name : String) : Json := (ps.get? name).getD .null

/-- A parameter that has to be there and not null. -/
def require (ps : Members Json) (owner name : String) : Except Trouble Json :=
  match ps.get? name with
  | none | some .null => .error (.parameterMissing owner name ps)
  | some j => .ok j

/-- The number that a document stands for, if any. -/
def number? (j : Json) : Except Trouble (Option Float) := (Value.ofJson j).number?

/-- A parameter that has to be a number or the text of one. -/
def requireNumber (ps : Members Json) (owner name : String) : Except Trouble Float := do
  let j ← require ps owner name
  match ← number? j with
  | some x => return x
  | none => throw (.parameterNotNumber owner name j)

/-- The comparison that the parameter `operator` names. -/
def requireComparison (ps : Members Json) (owner : String) (default : Json) :
    Except Trouble Comparison :=
  let raw := (ps.get? "operator").getD default
  let op := match raw with
    | .str s => Vocabulary.ofName? s
    | _ => none
  match op with
  | some op => .ok op
  | none => .error (.operatorUnknown owner raw)

/-- A whole number: a number without its fraction. -/
def wholeOf (x : Float) : Except Trouble Int :=
  match Binary64.parts x with
  | .finite d => .ok d.truncate
  | .infinite _ => .error .wholeOfInfinity
  | .nan => .error .wholeOfNaN

/-- The things that a document lists: items of a list, names of an object, characters of a text.
What is empty or null lists nothing. -/
def listed (j : Json) : Except Trouble (List Value) :=
  if !j.truthy then .ok []
  else
    match j with
    | .arr items => .ok (Value.ofItems items)
    | .obj ms => .ok ((Members.names ms).map .str)
    | .str s => .ok (s.toList.map fun c => .str (String.ofList [c]))
    | j => .error (.notAList j.typeName)

/-- Whether a text is in a document: among the items of a list, among the names of an object, or a
part of a text. -/
def hasText (j : Json) (s : String) : Except Trouble Bool :=
  match j with
  | .arr items => .ok ((Value.ofItems items).any (Value.same · (.str s)))
  | .obj ms => .ok (Members.has ms s)
  | .str t => .ok (Value.isPart s.toList t.toList)
  | j => .error (.notAContainer j.typeName)

/-- What a mapping gives for a value used as a name: nothing for a value that is no text. -/
def lookUp {α : Type} (ms : Members α) (key : Value) : Except Trouble (Option α) :=
  (Value.key key).map fun
    | .str s => ms.get? s
    | _ => none

/-- Whether a whole number is at least as great as a double. -/
def isAtLeast (n : Int) (x : Float) : Bool :=
  match Binary64.compareInt n x with
  | some .gt | some .eq => true
  | _ => false

/-- Whether all values of a list pass a check; the first that does not ends it. -/
def every (check : Value → Except Trouble Bool) : List Value → Except Trouble Bool
  | [] => .ok true
  | v :: rest =>
    match check v with
    | .ok true => every check rest
    | r => r

end EntityRules.Parameters
