import EntityRules.Json.Reader
import EntityRules.Settings.Report

/-! The configuration of a running program. -/

namespace EntityRules

/-- Settings are read from environment variables and may be assigned by name afterwards. They are
also published as constants, which keep the values that were read last. -/
structure Configuration where
  settings : SettingsReport.Table
  constants : SettingsReport.Table
  /-- Whether something was assigned as weights that is no record of weights. -/
  weightsReplaced : Bool := false

/-- Why environment variables were not taken over. -/
inductive EnvironmentTrouble where
  /-- There can be no variable of a name, or none with a text. -/
  | noVariable
  /-- A setting with parts is given by a text that is no document. -/
  | unreadable
  /-- A setting with parts is given by a document that goes too deep. -/
  | tooDeep
  | refused (why : Refusal)

/-- Why a setting is not assigned. -/
inductive AssignmentTrouble where
  /-- There is no setting of a name. -/
  | unknownName
  /-- What has the name can only be read. -/
  | isFixed
  /-- What has the name is never of the type of the value. -/
  | unfit
deriving DecidableEq, Repr

namespace Configuration

/-- The name of the setting that has parts. -/
def weightsName : String := "relevance_weights"

def ofSettings (s : EngineSettings) : Configuration :=
  { settings := s.members, constants := s.members.erase weightsName }

def standard : Configuration := ofSettings {}

/-- What the names of the environment variables of settings begin with, in small letters. -/
def variableStart : List Char := "entity_engine_".toList

/-- What stands between the name of a setting and the name of a part of it. -/
def partSeparator : List Char := "__".toList

/-- The names of the environment variables of settings and of their parts, in capitals. -/
def variableNames : List String :=
  let parts := (Members.names RelevanceWeights.standardMembers).map fun name =>
    weightsName.toList ++ partSeparator ++ name.toList
  ((Members.names standard.settings).map String.toList ++ parts).map fun name =>
    String.ofList ((variableStart ++ name).map Char.toUpper)

/-- Environment variables of settings without the common beginning of their names; of names that
differ only in case the last one counts. -/
def settingVariables (environment : Members String) : Members String :=
  environment.foldl
    (fun ms (name, text) =>
      let name := (Text.smalls name).toList
      if variableStart.isPrefixOf name then
        Members.put ms (String.ofList (name.drop variableStart.length)) text
      else ms) []

/-- What stands before the first separator, and whether there is one. -/
def untilSeparator : List Char → List Char × Bool
  | '_' :: '_' :: _ => ([], true)
  | c :: rest =>
    let (name, more) := untilSeparator rest
    (c :: name, more)
  | [] => ([], false)

/-- Adds what a variable says of a part of the weights. A name with further parts makes the part an
object, unless the part was given before. -/
def putPart (parts : Members Json) (name text : String) : Members Json :=
  match untilSeparator name.toList with
  | (_, false) => Members.put parts name (.str text)
  | (first, true) =>
    if Members.has parts (String.ofList first) then parts
    else Members.put parts (String.ofList first) (.obj [])

/-- The parts of the weights that have variables of their own. -/
def weightParts (vars : Members String) : Members Json :=
  let start := weightsName.toList ++ partSeparator
  vars.foldl
    (fun parts (name, text) =>
      if start.isPrefixOf name.toList then
        putPart parts (String.ofList (name.toList.drop start.length)) text
      else parts) []

/-- The name of a weight in its usual case; other names stay as they are. -/
def weightName (name : String) : String :=
  ((Members.names RelevanceWeights.standardMembers).find? fun n =>
    Text.smalls n = Text.smalls name).getD name

/-- Members under the usual names of weights; of names that differ only in case the last one
counts. -/
def namedWeights (ms : Members Json) : Members Json :=
  ms.foldl (fun done (name, j) => Members.put done (weightName name) j) []

/-- The weights given by variables: a document, single parts, or a document with parts replaced. A
document that is null gives none. -/
def weights? (vars : Members String) : Except EnvironmentTrouble (Option Json) :=
  let parts := weightParts vars
  match Members.get? vars weightsName with
  | none => .ok (if parts.isEmpty then none else some (.obj (namedWeights parts)))
  | some text =>
    match Json.read .json text with
    | .error .tooDeep => .error .tooDeep
    | .error _ => .error .unreadable
    | .ok .null => .ok none
    | .ok (.obj ms) =>
      .ok (some (.obj (namedWeights (parts.foldl (fun ms (name, j) => Members.put ms name j) ms))))
    | .ok j => .ok (some j)

/-- Whether there can be a variable of a name with a text: neither has a null character, and the
name has no equals sign. -/
def canBe (pair : String × String) : Bool :=
  let null := Char.ofNat 0
  !(pair.1.toList.any fun c => c = null || c = '=') && !pair.2.toList.contains null

/-- The settings that environment variables give. -/
def given (environment : Members String) : Except EnvironmentTrouble (Members Json) := do
  if !environment.all canBe then throw .noVariable
  let vars := settingVariables environment
  let weights ← weights? vars
  let single := (Members.names standard.constants).filterMap fun name =>
    (Members.get? vars (Text.smalls name)).map fun text => (name, Json.str text)
  return single ++ (weights.map fun w => (weightsName, w)).toList

/-- The settings under environment variables; those that are not given have their defaults. -/
def readSettings (environment : Members String) : Except EnvironmentTrouble EngineSettings := do
  match EngineSettings.decode (← given environment) with
  | .ok s => return s
  | .refused why => throw (.refused why)

/-- Reads the settings anew. -/
def reload (environment : Members String) : Except EnvironmentTrouble Configuration :=
  ofSettings <$> readSettings environment

/-- What can be read but not assigned. -/
def fixedNames : List String :=
  ["model_extra", "model_fields_set", "__fields_set__", "__weakref__"]

/-- The name for the type of the settings, which is no value that could be assigned. -/
def typeName : String := "__class__"

/-- The name for all settings together. -/
def tableName : String := "__dict__"

/-- Assigns a setting; there has to be one of that name. Names that begin with an underscore are
free, but for the one for all settings together, which are replaced, and those of what is fixed. -/
def assign (c : Configuration) (name : String) (value : Json) :
    Except AssignmentTrouble Configuration :=
  if name ∈ fixedNames then .error .isFixed
  else if name = typeName then .error .unfit
  else if name = tableName then
    match value with
    | .obj ms => .ok { c with settings := ms, weightsReplaced := true }
    | _ => .error .unfit
  else if name.startsWith "_" || Members.has standard.settings name then
    .ok { c with
      settings := Members.put c.settings name value
      weightsReplaced := c.weightsReplaced || name = weightsName }
  else .error .unknownName

/-- Assigns a record of weights; a weight that is absent has its default. -/
def assignWeights (c : Configuration) (given : Members Json) : Configuration :=
  let weights := RelevanceWeights.standardMembers.map fun m =>
    (m.1, (Members.get? given m.1).getD m.2)
  { c with settings := Members.put c.settings weightsName (.obj weights), weightsReplaced := false }

/-- Assigns a setting; weights are given by the members of a record. -/
def assignRecord (c : Configuration) (name : String) (value : Json) :
    Except AssignmentTrouble Configuration :=
  if name = weightsName then
    match value with
    | .obj ms => .ok (c.assignWeights ms)
    | _ => .error .unfit
  else c.assign name value

/-- How a value is written as a setting, given the usual value of the setting. A whole number or a
boolean stands for a double where one is usual, and a boolean for a whole number. -/
def writtenLike (usual value : Json) : Except SettingsTrouble Json :=
  match usual, value with
  | .float _, .int n | .null, .int n => .float <$> SettingsReport.doubleOf n
  | .float _, .bool b | .null, .bool b => .ok (.float (if b then 1 else 0))
  | .int _, .bool b => .ok (.int (if b then 1 else 0))
  | _, value => .ok value

/-- How weights are written. -/
def writtenWeights (weights : Json) : Except SettingsTrouble Json :=
  match weights with
  | .obj ms => .obj <$> ms.mapM fun m => (m.1, ·) <$> writtenLike (.float 0) m.2
  | j => .ok j

/-- The settings as they are written, without those of the log. -/
def written (c : Configuration) : Except SettingsTrouble (Members Json) :=
  ({} : EngineSettings).rules.mapM fun usual =>
    let value := SettingsReport.value c.settings usual.1
    (usual.1, ·) <$>
      if usual.1 = weightsName then writtenWeights value else writtenLike usual.2 value

/-- The health of the settings as they stand. -/
def report (c : Configuration) : Except SettingsTrouble SettingsReport :=
  if c.weightsReplaced then .error .noWeights
  else if ({} : EngineSettings).rules.all fun m => Members.has c.settings m.1 then
    SettingsReport.ofTable c.settings
  else .error .noSetting

end Configuration

end EntityRules
