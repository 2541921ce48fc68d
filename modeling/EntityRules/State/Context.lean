import EntityRules.State
import EntityRules.Value.Compare

/-! Game states from the session contexts that callers keep. -/

namespace EntityRules

/-- Why a context gave no game state. -/
inductive ContextError where
  /-- A part has a shape that cannot be looked into or walked through. -/
  | shape
  /-- A part of a mapping is no pair. -/
  | notAPair
  /-- A part was put together, and then refused as a record. -/
  | invalid (part : String) (why : Refusal)

namespace Context

open Decode

/-- Whether a text has a name as a part, or a list has it as an item. -/
def mentions (source : Json) (name : String) : Bool :=
  match source with
  | .str s => Value.isPart name.toList s.toList
  | .arr items => items.any fun
    | .str s => s = name
    | _ => false
  | _ => false

/-- The value of the first of several names that has one that is not null. Only a mapping has
values by name; an empty part has none. -/
def pick (source : Json) (names : List String) (default : Json) : Except ContextError Json :=
  match source with
  | .obj ms =>
    .ok ((names.findSome? fun name => (Members.get? ms name).filter (!·.isNull)).getD default)
  | .str _ | .arr _ => if names.any (mentions source) then .error .shape else .ok default
  | j => if j.truthy then .error .shape else .ok default

/-- Walks through a part: the items of a list, the names of a mapping, the characters of a text. -/
def walk (j : Json) : Except ContextError (List Json) :=
  match j.elements? with
  | some items => .ok items
  | none => .error .shape

/-- A pair given by anything with two parts; its first part has to be a single value. -/
def pair (j : Json) : Except ContextError (Json × Json) :=
  match walk j with
  | .error e => .error e
  | .ok [.arr _, _] | .ok [.obj _, _] => .error .shape
  | .ok [a, b] => .ok (a, b)
  | .ok _ => .error .notAPair

/-- Gives a name a value where it stands, or appends it; names that are equal as values are one. -/
def putPair (pairs : List (Json × Json)) (p : Json × Json) : List (Json × Json) :=
  match pairs with
  | [] => [p]
  | q :: rest =>
    if Value.same (.ofJson q.1) (.ofJson p.1) then (q.1, p.2) :: rest else q :: putPair rest p

/-- The pairs of a mapping, or of anything that can be walked through in pairs. -/
def pairs : Json → Except ContextError (List (Json × Json))
  | .obj ms => .ok (ms.map fun m => (.str m.1, m.2))
  | j => do
    let mut done := []
    for item in ← walk j do
      done := putPair done (← pair item)
    return done

/-- The names and values that metadata gives, if it gives any. Names that are no texts are never
looked up. -/
def metadata (j : Json) : Except ContextError (Members Json) :=
  if j.truthy then
    (pairs j).map (·.filterMap fun
      | (.str name, v) => some (name, v)
      | _ => none)
  else .ok []

/-- The step of a path to a value by its name. A whole number stands as such when it fits into a
word, and as a text otherwise. -/
def nameStep : Json → PathStep
  | .str s => .member s
  | .int n => if fitsWord n then .numberedMember n else .member (toString n)
  | .bool b => .numberedMember (if b then 1 else 0)
  | j => .member j.innerMessage

/-- Reads the values of pairs, whose names have to be texts. -/
def membersOf {α : Type} (dec : Json → Decoded α) : List (Json × Json) → Decoded (Members α)
  | [] => .ok []
  | (name, j) :: rest =>
    List.cons <$>
      (Prod.mk <$> ((text name).under .nameItself).under (nameStep name) <*>
        (dec j).under (nameStep name)) <*>
      membersOf dec rest

/-- The mapping that a part of a context stands for, as the field of a record. -/
def mappingOf {α : Type} (fieldName : String) (dec : Json → Decoded α) (ps : List (Json × Json)) :
    Decoded (Members α) :=
  (membersOf dec ps).under (.member fieldName)

/-- A record put together from a part of a context. -/
def part {α : Type} (name : String) : Decoded α → Except ContextError α
  | .ok a => .ok a
  | .refused why => .error (.invalid name why)

/-- The phase that a session mode stands for: a phase by name, an alias of one, or exploration. A
mode has to be a single value. -/
def phaseOf : Json → Except ContextError SessionPhase
  | .str s =>
    .ok (((SessionPhase.ofAlias? s).orElse fun _ => Vocabulary.ofName? s).getD .exploration)
  | .arr _ | .obj _ => .error .shape
  | _ => .ok .exploration

/-- The story of a context; an empty one counts as none. -/
def storyOf (raw : Json) : Except ContextError (Option StoryState) :=
  if raw.truthy then do
    let chapter ← pick raw ["currentChapter", "current_chapter"] .null
    let progress ← pick raw ["progress"] (.float 0)
    let keyEvents ← walk (← pick raw ["keyEvents", "key_events"] (.arr []))
    some <$> part "StoryState" (StoryState.decode (.obj [
      ("current_chapter", chapter), ("progress", progress), ("key_events", .arr keyEvents)]))
  else .ok none

def eventOf (raw : Json) : Except ContextError RecentEvent := do
  let id ← pick raw ["id"] .null
  let type ← pick raw ["type"] (.str "")
  let description ← pick raw ["description"] (.str "")
  let timestamp ← pick raw ["timestamp", "actualStartTime", "actual_start_time"] .null
  part "RecentEvent" (RecentEvent.decode (.obj [
    ("id", id), ("type", type), ("description", description), ("timestamp", timestamp)]))

def playerOf (raw location : Json) : Except ContextError PlayerState := do
  let id ← pick raw ["id"] (.str "")
  let name ← pick raw ["name"] (.str "")
  let level ← pick raw ["level"] (.int 1)
  let stats ← pairs (← pick raw ["stats"] (.obj []))
  let items ← walk (← pick raw ["items"] (.arr []))
  let status ← walk (← pick raw ["status"] (.arr []))
  let relationships ← pairs (← pick raw ["relationships"] (.obj []))
  part "PlayerState" (PlayerState.ofMembers
    [("id", id), ("name", name), ("level", level), ("location", location),
      ("items", .arr items), ("status", .arr status)]
    (mappingOf "stats" number stats) (mappingOf "relationships" number relationships))

/-- The weather by name; an object names it by its type, and clear weather stands for an empty
type. -/
def weatherOf : Json → Json
  | .obj ms =>
    let type := (Members.get? ms "type").getD .null
    if type.truthy then type else .str "clear"
  | j => j

def worldOf (current time weather : Json) (tags : List Json) : Except ContextError WorldState := do
  let hour ← match time with
    | .obj ms => pick (.obj ms) ["hour"] (.int 0)
    | j => .ok j
  let events ← walk (← pick current ["events"] (.arr tags))
  let flags ← pairs (← pick current ["flags"] (.obj []))
  part "WorldState" (WorldState.ofMembers
    [("time", hour), ("weather", weather), ("events", .arr events)]
    (mappingOf "flags" boolean flags))

end Context

open Context in
/-- The game state that a session context describes. The parts are looked up and put together in a
fixed order, and the first one that cannot be is reported. -/
def GameState.ofContext (context : Json) : Except ContextError GameState := do
  let current ← pick context ["currentState", "current_state"] (.obj [])
  let rawPlayer ← pick current ["player"] (.obj [])
  let time ← pick current ["time"] (.obj [])
  let weather ← pick current ["weather"] (.str "clear")
  let metadata ← pick context ["metadata"] (.obj [])
  let tags ← walk (← pick context ["contextTags", "context_tags"] (.arr []))
  let phase ← phaseOf (← pick context ["sessionMode", "session_mode"] (.str "exploration"))
  let story ← storyOf (← pick current ["story"] .null)
  let history ← pick context ["recentHistory", "recent_history"] (.obj [])
  let recentEvents ← (← walk (← pick history ["events"] (.arr []))).mapM eventOf
  let location ← pick rawPlayer ["location"] (.str "")
  let player ← playerOf rawPlayer location
  let world ← worldOf current time (weatherOf weather) tags
  let turn ← pick metadata ["turn"] (.int 1)
  let npcs ← walk (← pick context ["npcsPresent", "npcs_present"] (.arr []))
  let session ← part "SessionState" (SessionState.decode (.obj [
    ("turn", turn), ("phase", .str (Vocabulary.name phase)), ("location", location),
    ("npcs_present", .arr npcs)]))
  let contextTags ← part "GameState"
    ((Decode.list Decode.text (.arr tags)).under (.member "context_tags"))
  return { player, world, session, story, recentEvents, contextTags }

end EntityRules
