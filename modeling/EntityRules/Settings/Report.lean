import EntityRules.Number.Format
import EntityRules.Settings
import EntityRules.Value.Compare

/-! The health of settings: errors, warnings and hints, single and of settings together. -/

namespace EntityRules

/-- A remark about a setting. -/
structure SettingIssue where
  setting : String
  message : String

structure SettingsReport where
  errors : List SettingIssue
  warnings : List SettingIssue
  hints : List SettingIssue

/-- Why settings cannot be looked at. -/
inductive SettingsTrouble where
  /-- A setting is of a type that cannot be compared. -/
  | notComparable
  /-- A whole number is beyond the range of doubles. -/
  | numberTooLarge
  /-- The weights are no longer a record. -/
  | noWeights
  /-- There is no longer a setting of some name. -/
  | noSetting
deriving DecidableEq, Repr

namespace SettingsReport

/-- Settings by name. -/
abbrev Table := Members Json

def value (t : Table) (name : String) : Json := (Members.get? t name).getD .null

/-- A setting as a number. -/
def numeral (j : Json) : Except SettingsTrouble Value.Numeral :=
  match (Value.ofJson j).numeral? with
  | some x => .ok x
  | none => .error .notComparable

/-- Whether one number is less than another. -/
def isLess (a b : Json) : Except SettingsTrouble Bool := do
  return (← numeral a).less (← numeral b)

def isAtMost (a b : Json) : Except SettingsTrouble Bool := do
  let x ← numeral a
  let y ← numeral b
  return x.less y || x.same y

mutual

/-- Whether a value stands behind another one of its type: numbers by size, texts by their
characters, lists by their first items that differ. -/
def isAbove : Json → Json → Except SettingsTrouble Bool
  | .str a, .str b => .ok (decide (b < a))
  | .arr xs, .arr ys => isListAbove xs ys
  | a, b => isLess b a

def isListAbove : List Json → List Json → Except SettingsTrouble Bool
  | [], _ => .ok false
  | _ :: _, [] => .ok true
  | x :: xs, y :: ys =>
    if Value.same (.ofJson x) (.ofJson y) then isListAbove xs ys else isAbove x y

end

/-- A remark that is made when a check holds. -/
def remark (check : Except SettingsTrouble Bool) (setting message : String) :
    Except SettingsTrouble (List SettingIssue) :=
  check.map fun holds => if holds then [⟨setting, message⟩] else []

/-- A whole number as a double. -/
def doubleOf (n : Int) : Except SettingsTrouble Float :=
  match Binary64.ofInt? n with
  | some x => .ok x
  | none => .error .numberTooLarge

/-- A number as a double. -/
def double : Value.Numeral → Except SettingsTrouble Float
  | .whole n => doubleOf n
  | .double x => .ok x

/-- The sum of two numbers, which is exact for whole numbers. -/
def add (a b : Value.Numeral) : Except SettingsTrouble Value.Numeral :=
  match a, b with
  | .whole m, .whole n => .ok (.whole (m + n))
  | a, b => do return .double ((← double a) + (← double b))

/-- The sum of weights; a weight that is absent has its default. -/
def weightSum (weights : Json) : Except SettingsTrouble Float := do
  let given (m : String × Json) : Json := (weights.member? m.1).getD m.2
  match RelevanceWeights.standardMembers.map given with
  | [] => return 0
  | first :: rest =>
    double (← rest.foldlM (fun total j => do add total (← numeral j)) (← numeral first))

def weightIssues (t : Table) : Except SettingsTrouble (List SettingIssue) := do
  let total ← weightSum (value t "relevance_weights")
  return if RelevanceWeights.isOff total then
    [⟨"relevance_weights",
      "Relevance weights must sum to 1.0; got " ++ Number.fixed 4 total ++ "."⟩]
  else []

/-- The check that a setting is above zero. -/
def positiveIssues (t : Table) (name : String) : Except SettingsTrouble (List SettingIssue) :=
  remark (isAtMost (value t name) (.int 0)) name
    (name ++ " must be > 0; got " ++ (value t name).message ++ ".")

/-- The check that the scores recommended are a range. -/
def rangeIssues (t : Table) : Except SettingsTrouble (List SettingIssue) :=
  let low := value t "RECOMMENDATION_MIN_SCORE"
  let high := value t "RECOMMENDATION_MAX_SCORE"
  remark (isAbove low high) "RECOMMENDATION_MIN_SCORE"
    ("RECOMMENDATION_MIN_SCORE (" ++ low.message ++ ") exceeds RECOMMENDATION_MAX_SCORE (" ++
      high.message ++ ").")

/-- The settings that are sizes, each with the least and the greatest usual value. -/
def sizes : List (String × Int × Int) := [
  ("QUERY_MAX_RESULTS", 1, 10000),
  ("QUERY_CACHE_MAXSIZE", 1, 100000),
  ("GRAPH_CACHE_MAXSIZE", 1, 100000),
  ("INDIRECT_MAX_DEPTH", 1, 10),
  ("PATH_MAX_HOPS", 1, 50),
  ("BATCH_MAX_WORKERS", 1, 64)]

def tooSmall (t : Table) (size : String × Int × Int) :
    Except SettingsTrouble (List SettingIssue) :=
  let (name, least, _) := size
  remark (isLess (value t name) (.int least)) name
    (name ++ " must be >= " ++ toString least ++ "; got " ++ (value t name).message ++ ".")

def tooLarge (t : Table) (size : String × Int × Int) :
    Except SettingsTrouble (List SettingIssue) :=
  let (name, _, greatest) := size
  remark (isLess (.int greatest) (value t name)) name
    (name ++ " is very large (" ++ (value t name).message ++ "); consider lowering it.")

/-- The remark about a decay that weighs no distances. -/
def decayIssues (t : Table) : List SettingIssue :=
  let decay := value t "INDIRECT_STRENGTH_DECAY"
  if [0.0, 1.0].any fun x => (Value.ofJson decay).same (.float x) then
    [⟨"INDIRECT_STRENGTH_DECAY", "INDIRECT_STRENGTH_DECAY = " ++ decay.message ++
      " disables distance weighting of indirect relationships."⟩]
  else []

def cacheHints (t : Table) : List SettingIssue :=
  if (value t "QUERY_CACHE_TTL_SECONDS").isNull && (value t "QUERY_CACHE_ENABLED").truthy then
    [⟨"QUERY_CACHE_TTL_SECONDS", "Query cache entries never expire; they are cleared on " ++
      "graph mutation or clear_caches()."⟩]
  else []

/-- The errors in the order of the checks. -/
def errorsIn (t : Table) : Except SettingsTrouble (List SettingIssue) := do
  let weights ← weightIssues t
  let scale ← positiveIssues t "PRIORITY_SCALE"
  let window ← positiveIssues t "LEVEL_PROXIMITY_WINDOW"
  let range ← rangeIssues t
  let small ← sizes.mapM (tooSmall t)
  return weights ++ scale ++ window ++ range ++ small.flatten

/-- Looks at settings. -/
def ofTable (t : Table) : Except SettingsTrouble SettingsReport := do
  let errors ← errorsIn t
  let large ← sizes.mapM (tooLarge t)
  return { errors, warnings := decayIssues t ++ large.flatten, hints := cacheHints t }

/-- The health in one word. -/
def health (r : SettingsReport) : String :=
  if !r.errors.isEmpty then "error" else if !r.warnings.isEmpty then "warning" else "healthy"

def encode (r : SettingsReport) : Json :=
  let list := Encode.list fun i : SettingIssue =>
    .obj [("field", .str i.setting), ("message", .str i.message)]
  .obj [("overall_health", .str r.health),
    ("issues", .obj [("errors", list r.errors), ("warnings", list r.warnings),
      ("info", list r.hints)])]

end SettingsReport

end EntityRules
