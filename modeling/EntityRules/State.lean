import EntityRules.Decode
import EntityRules.Value

/-! The state of a game at one moment: the player, the world, the session, and the story. -/

namespace EntityRules

structure PlayerState where
  id : String := ""
  name : String := ""
  level : Int := 1
  location : String := ""
  stats : Members Float := []
  items : List String := []
  status : List String := []
  relationships : Members Float := []

structure WorldState where
  /-- The time of day, if it is given. -/
  time : Option Float := none
  weather : String := "clear"
  events : List String := []
  flags : Members Bool := []

structure SessionState where
  turn : Int := 1
  phase : SessionPhase := .exploration
  location : String := ""
  npcsPresent : List String := []

structure StoryState where
  currentChapter : Option String := none
  progress : Float := 0
  keyEvents : List String := []

structure RecentEvent where
  id : Option String := none
  type : String := ""
  description : String := ""
  timestamp : Option Moment := none

/-- The state of a game at one moment, with the tags of the current context. -/
structure GameState where
  player : PlayerState := {}
  world : WorldState := {}
  session : SessionState := {}
  story : Option StoryState := none
  recentEvents : List RecentEvent := []
  contextTags : List String := []

open Decode

namespace Value

def ofOption {α : Type} (f : α → Value) : Option α → Value
  | none => .null
  | some a => f a

def ofList {α : Type} (f : α → Value) (xs : List α) : Value := .arr (xs.map f)

def ofMapping {α : Type} (f : α → Value) (ms : Members α) : Value :=
  .obj (ms.map fun m => (m.1, f m.2))

end Value

/-- Reads a player, the two mappings of numbers being read already. -/
def PlayerState.ofMembers (ms : Members Json) (stats relationships : Decoded (Members Float)) :
    Decoded PlayerState :=
  PlayerState.mk <$>
    field ms ["id"] text "" <*>
    field ms ["name"] text "" <*>
    field ms ["level"] whole 1 <*>
    field ms ["location"] text "" <*>
    stats <*>
    field ms ["items"] (list text) [] <*>
    field ms ["status"] (list text) [] <*>
    relationships

def PlayerState.decode : Json → Decoded PlayerState :=
  record fun ms =>
    PlayerState.ofMembers ms
      (field ms ["stats"] (mapping number) [])
      (field ms ["relationships"] (mapping number) [])

def PlayerState.view (p : PlayerState) : Value :=
  .record "PlayerState" [
    ("id", .str p.id), ("name", .str p.name), ("level", .int p.level),
    ("location", .str p.location), ("stats", .ofMapping .float p.stats),
    ("items", .ofList .str p.items), ("status", .ofList .str p.status),
    ("relationships", .ofMapping .float p.relationships)]

/-- Reads a world, its flags being read already. -/
def WorldState.ofMembers (ms : Members Json) (flags : Decoded (Members Bool)) :
    Decoded WorldState :=
  WorldState.mk <$>
    field ms ["time"] (some <$> number ·) none <*>
    field ms ["weather"] text "clear" <*>
    field ms ["events"] (list text) [] <*>
    flags

/-- The hour of the day; zero when no time is given. -/
def WorldState.hour (w : WorldState) : Float := w.time.getD 0

def WorldState.decode : Json → Decoded WorldState :=
  record fun ms => WorldState.ofMembers ms (field ms ["flags"] (mapping boolean) [])

def WorldState.view (w : WorldState) : Value :=
  .record "WorldState" [
    ("time", (w.time.map Value.float).getD .unset), ("weather", .str w.weather),
    ("events", .ofList .str w.events),
    ("flags", .ofMapping .bool w.flags)]

/-- A phase by its name, or by a session mode that stands for it. -/
def SessionPhase.decode : Json → Decoded SessionPhase
  | .str s =>
    match SessionPhase.ofAlias? s with
    | some p => .ok p
    | none => word (.str s)
  | j => word j

def SessionState.decode : Json → Decoded SessionState :=
  record fun ms =>
    SessionState.mk <$>
      field ms ["turn"] whole 1 <*>
      field ms ["phase"] SessionPhase.decode .exploration <*>
      field ms ["location"] text "" <*>
      field ms ["npcs_present"] (list text) []

def SessionState.view (s : SessionState) : Value :=
  .record "SessionState" [
    ("turn", .int s.turn), ("phase", .phase s.phase), ("location", .str s.location),
    ("npcs_present", .ofList .str s.npcsPresent)]

def StoryState.decode : Json → Decoded StoryState :=
  record fun ms =>
    StoryState.mk <$>
      field ms ["current_chapter"] (optional text) none <*>
      field ms ["progress"] number 0 <*>
      field ms ["key_events"] (list text) []

def StoryState.view (s : StoryState) : Value :=
  .record "StoryState" [
    ("current_chapter", .ofOption .str s.currentChapter), ("progress", .float s.progress),
    ("key_events", .ofList .str s.keyEvents)]

def RecentEvent.decode : Json → Decoded RecentEvent :=
  record fun ms =>
    RecentEvent.mk <$>
      field ms ["id"] (optional text) none <*>
      field ms ["type"] text "" <*>
      field ms ["description"] text "" <*>
      field ms ["timestamp"] (optional moment) none

def RecentEvent.view (e : RecentEvent) : Value :=
  .record "RecentEvent" [
    ("id", .ofOption .str e.id), ("type", .str e.type), ("description", .str e.description),
    ("timestamp", .ofOption .moment e.timestamp)]

namespace GameState

def decode : Json → Decoded GameState :=
  record fun ms =>
    GameState.mk <$>
      field ms ["player"] PlayerState.decode {} <*>
      field ms ["world"] WorldState.decode {} <*>
      field ms ["session"] SessionState.decode {} <*>
      field ms ["story"] (optional StoryState.decode) none <*>
      field ms ["recent_events"] (list RecentEvent.decode) [] <*>
      field ms ["context_tags"] (list text) []

def view (s : GameState) : Value :=
  .record "GameState" [
    ("player", s.player.view), ("world", s.world.view), ("session", s.session.view),
    ("story", .ofOption StoryState.view s.story),
    ("recent_events", .ofList RecentEvent.view s.recentEvents),
    ("context_tags", .ofList .str s.contextTags)]

def encode (s : GameState) : Json := s.view.dump

/-- The latest of some moments, the first of equal ones; none of them may be naive among others
with an offset. -/
def latest? : List Moment → Option (Option Moment)
  | [] => some none
  | m :: rest => (rest.foldlM later m).map some
where
  later (best m : Moment) : Option Moment :=
    (Moment.order? m best).map fun o => if o = .gt then m else best

/-- The time of the most recent event that has one; fails when naive times stand among others. -/
def lastEventTime? (s : GameState) : Option (Option Moment) :=
  latest? (s.recentEvents.filterMap (·.timestamp))

end GameState

end EntityRules
