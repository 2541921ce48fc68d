import EntityRules.Proofs.Except
import EntityRules.Proofs.Members
import EntityRules.Proofs.Reread.Part
import EntityRules.State.Context
import Mathlib.Data.List.Nodup
import Mathlib.Data.List.Pairwise

/-! Game states written as session contexts. -/

namespace EntityRules

/-- One of several names. -/
abbrev NameAmong (names : List String) := { name : String // name ∈ names }

/-- A part of an object: the names that it can have, the one that it has, and its value. -/
structure ContextPart where
  names : List String
  name : NameAmong names
  value : Json

namespace ContextPart

/-- A part with a single name. -/
def plain (name : String) (value : Json) : ContextPart :=
  ⟨[name], ⟨name, List.mem_singleton_self name⟩, value⟩

/-- The object of some parts. Null can be left out. -/
def object (leavesOut : Bool) (parts : List ContextPart) : Json :=
  .obj ((parts.filter fun p => !(leavesOut && p.value.isNull)).map fun p => (p.name, p.value))

end ContextPart

/-- How states are written as contexts. -/
structure ContextStyle where
  currentState : NameAmong ["currentState", "current_state"]
  sessionMode : NameAmong ["sessionMode", "session_mode"]
  npcsPresent : NameAmong ["npcsPresent", "npcs_present"]
  contextTags : NameAmong ["contextTags", "context_tags"]
  recentHistory : NameAmong ["recentHistory", "recent_history"]
  currentChapter : NameAmong ["currentChapter", "current_chapter"]
  keyEvents : NameAmong ["keyEvents", "key_events"]
  /-- The name of the time of each event, by its place. -/
  eventTime : Nat → NameAmong ["timestamp", "actualStartTime", "actual_start_time"]
  /-- Whether the weather stands in an object of its own, unless it is empty. -/
  weatherApart : Bool
  /-- Whether what a state does not have is left out, or null. -/
  leavesOut : Bool

namespace ContextStyle

open ContextPart

variable (c : ContextStyle)

def playerParts (p : PlayerState) : List ContextPart := [
  plain "id" (.str p.id), plain "name" (.str p.name), plain "level" (.int p.level),
  plain "location" (.str p.location), plain "stats" (Encode.mapping .float p.stats),
  plain "items" (Encode.list .str p.items), plain "status" (Encode.list .str p.status),
  plain "relationships" (Encode.mapping .float p.relationships)]

def player (p : PlayerState) : Json := object c.leavesOut (playerParts p)

def storyParts (s : StoryState) : List ContextPart := [
  ⟨_, c.currentChapter, Encode.optional .str s.currentChapter⟩,
  plain "progress" (.float s.progress),
  ⟨_, c.keyEvents, Encode.list .str s.keyEvents⟩]

def story (s : StoryState) : Json := object c.leavesOut (c.storyParts s)

def eventParts (place : Nat) (e : RecentEvent) : List ContextPart := [
  plain "id" (Encode.optional .str e.id),
  plain "type" (.str e.type),
  plain "description" (.str e.description),
  ⟨_, c.eventTime place, Encode.optional Encode.moment e.timestamp⟩]

def event (place : Nat) (e : RecentEvent) : Json := object c.leavesOut (c.eventParts place e)

def weather (w : WorldState) : Json :=
  if c.weatherApart ∧ w.weather ≠ "" then .obj [("type", .str w.weather)] else .str w.weather

/-- The hour of a world; one that was not given is the whole number zero. -/
def hour (w : WorldState) : Json := (w.time.map Json.float).getD (.int 0)

def currentParts (s : GameState) : List ContextPart := [
  plain "player" (c.player s.player),
  plain "time" (.obj [("hour", hour s.world)]),
  plain "weather" (c.weather s.world),
  plain "events" (Encode.list .str s.world.events),
  plain "flags" (Encode.mapping .bool s.world.flags),
  plain "story" (Encode.optional c.story s.story)]

def current (s : GameState) : Json := object c.leavesOut (c.currentParts s)

def history (s : GameState) : Json := .obj [("events", .arr (s.recentEvents.mapIdx c.event))]

def parts (s : GameState) : List ContextPart := [
  ⟨_, c.currentState, c.current s⟩,
  ⟨_, c.sessionMode, Encode.word s.session.phase⟩,
  plain "metadata" (.obj [("turn", .int s.session.turn)]),
  ⟨_, c.npcsPresent, Encode.list .str s.session.npcsPresent⟩,
  ⟨_, c.contextTags, Encode.list .str s.contextTags⟩,
  ⟨_, c.recentHistory, c.history s⟩]

/-- The context that a state is written as. -/
def context (s : GameState) : Json := object c.leavesOut (c.parts s)

end ContextStyle

namespace Context

open ContextPart Decode

section

variable {ms : Members Json} {names : List String} {j default : Json}

/-- Where all that stands under some names is one value, that value is found. Null is found only
where it is the default. -/
theorem pick_eq (values : ∀ m ∈ ms, m.1 ∈ names → m.2 = j)
    (there : (∃ m ∈ ms, m.1 ∈ names) ∨ j = default) (filled : j = .null → default = .null) :
    pick (.obj ms) names default = .ok j := by
  have found : ∀ name ∈ names, ∀ v, ms.get? name = some v → v = j := by
    intro name hn v hv
    exact values (name, v) (Members.mem_of_get? hv) hn
  rw [pick]
  cases first : names.findSome? fun name => (ms.get? name).filter (!·.isNull) with
  | some v =>
    obtain ⟨name, hn, held⟩ := List.exists_of_findSome?_eq_some first
    obtain ⟨held, -⟩ := Option.filter_eq_some_iff.mp held
    rw [Option.getD_some, found name hn v held]
  | none =>
    rw [Option.getD_none]
    rcases there with ⟨m, hm, named⟩ | rfl
    · cases held : ms.get? m.1 with
      | none => exact absurd (Members.mem_names_of_mem hm) (Members.get?_eq_none_iff.mp held)
      | some v =>
        have passed := List.findSome?_eq_none_iff.mp first m.1 named
        rw [held, found m.1 named v held] at passed
        cases j with
        | null => rw [filled rfl]
        | _ => simp [Json.isNull] at passed
    · rfl

end

/-- A part is found under its names if no other part has one of them. -/
theorem pick_object {ps : List ContextPart} (apart : (ps.flatMap (·.names)).Nodup) (place : Nat)
    {p : ContextPart} (there : ps[place]? = some p) {default : Json}
    (filled : p.value = .null → default = .null) (leavesOut : Bool) :
    pick (object leavesOut ps) p.names default = .ok p.value := by
  have hp : p ∈ ps := List.mem_of_getElem? there
  have same : ∀ q ∈ ps, (q.name : String) ∈ p.names → q = p := by
    intro q hq shared
    by_contra differ
    have : Std.Symm (Function.onFun List.Disjoint fun p : ContextPart => p.names) :=
      ⟨fun _ _ disjoint => List.disjoint_symm disjoint⟩
    exact (List.nodup_flatMap.mp apart).2.forall hq hp differ q.name.property shared
  refine pick_eq ?_ ?_ filled
  · intro m hm named
    obtain ⟨q, hq, rfl⟩ := List.mem_map.mp hm
    rw [same q (List.mem_filter.mp hq).1 named]
  · by_cases null : p.value = .null
    · exact .inr (null.trans (filled null).symm)
    · refine .inl ⟨_, List.mem_map_of_mem (List.mem_filter.mpr ⟨hp, ?_⟩), p.name.property⟩
      cases held : p.value <;> simp_all [Json.isNull]

/-- An object with a value that is not null counts as given. -/
theorem truthy_object {ps : List ContextPart} {p : ContextPart} (hp : p ∈ ps)
    (filled : p.value.isNull = false) (leavesOut : Bool) :
    (object leavesOut ps).truthy = true := by
  have kept : (p.name.val, p.value) ∈
      (ps.filter fun p => !(leavesOut && p.value.isNull)).map fun p => (p.name.val, p.value) :=
    List.mem_map_of_mem (List.mem_filter.mpr ⟨hp, by simp [filled]⟩)
  rw [object]
  generalize (ps.filter _).map _ = ms at kept ⊢
  cases ms with
  | nil => cases kept
  | cons m rest => rfl

variable (c : ContextStyle)

@[simp] theorem walk_list {α : Type} (enc : α → Json) (xs : List α) :
    walk (Encode.list enc xs) = .ok (xs.map enc) := rfl

@[simp] theorem pairs_mapping {α : Type} (enc : α → Json) (ms : Members α) :
    pairs (Encode.mapping enc ms) = .ok (ms.map fun m => (.str m.1, enc m.2)) := by
  rw [Encode.mapping, pairs, List.map_map]
  rfl

theorem list_text_map (ss : List String) : list text (.arr (ss.map .str)) = .ok ss := list_text ss

theorem mappingOf_written {α : Type} {dec : Json → Decoded α} {enc : α → Json}
    (h : Restores dec enc) (name : String) (ms : Members α) :
    mappingOf name dec (ms.map fun m => (.str m.1, enc m.2)) = .ok ms := by
  rw [mappingOf, Decoded.under_eq_ok]
  induction ms with
  | nil => rfl
  | cons m rest ih => simp [membersOf, ih, h m.2]

theorem storyOf_written (s : StoryState) : storyOf (c.story s) = .ok (some s) := by
  have apart : ((c.storyParts s).flatMap (·.names)).Nodup := by
    simp [ContextStyle.storyParts, plain]
  have chapter : pick (c.story s) ["currentChapter", "current_chapter"] .null =
      .ok (Encode.optional .str s.currentChapter) := pick_object apart 0 rfl (fun _ => rfl) _
  have progress : pick (c.story s) ["progress"] (.float 0) = .ok (.float s.progress) :=
    pick_object apart 1 rfl nofun _
  have events : pick (c.story s) ["keyEvents", "key_events"] (.arr []) =
      .ok (Encode.list .str s.keyEvents) := pick_object apart 2 rfl nofun _
  have truthy : (c.story s).truthy = true :=
    truthy_object (p := plain "progress" _) (.tail _ (.head _)) rfl _
  rw [storyOf, if_pos truthy, chapter, progress, events]
  simp [bind, Except.bind, part, StoryState.decode, record, field, firstPresent, Members.get?_cons,
    list_text_map]

theorem storyOf_optional (s : Option StoryState) :
    storyOf (Encode.optional c.story s) = .ok s := by
  cases s with
  | none => rfl
  | some story => exact storyOf_written c story

theorem eventOf_written (place : Nat) (e : RecentEvent) : eventOf (c.event place e) = .ok e := by
  have apart : ((c.eventParts place e).flatMap (·.names)).Nodup := by
    simp [ContextStyle.eventParts, plain]
  have id : pick (c.event place e) ["id"] .null = .ok (Encode.optional .str e.id) :=
    pick_object apart 0 rfl (fun _ => rfl) _
  have type : pick (c.event place e) ["type"] (.str "") = .ok (.str e.type) :=
    pick_object apart 1 rfl nofun _
  have description : pick (c.event place e) ["description"] (.str "") = .ok (.str e.description) :=
    pick_object apart 2 rfl nofun _
  have time : pick (c.event place e) ["timestamp", "actualStartTime", "actual_start_time"] .null =
      .ok (Encode.optional Encode.moment e.timestamp) := pick_object apart 3 rfl (fun _ => rfl) _
  rw [eventOf, id, type, description, time]
  simp [bind, Except.bind, part, RecentEvent.decode, record, field, firstPresent, Members.get?_cons]

/-- Events are read one by one, wherever each of them stands. -/
theorem mapM_eventOf {f : Nat → RecentEvent → Json} (each : ∀ place e, eventOf (f place e) = .ok e)
    (events : List RecentEvent) : (events.mapIdx f).mapM eventOf = .ok events := by
  rw [mapM_eq_ok]
  induction events generalizing f with
  | nil => rfl
  | cons e rest ih =>
    rw [List.mapIdx_cons, List.map_cons, each, ih fun place => each (place + 1), List.map_cons]

theorem playerParts_apart (p : PlayerState) :
    ((ContextStyle.playerParts p).flatMap (·.names)).Nodup := by
  simp [ContextStyle.playerParts, plain]

theorem playerOf_written (p : PlayerState) : playerOf (c.player p) (.str p.location) = .ok p := by
  have apart := playerParts_apart p
  have id : pick (c.player p) ["id"] (.str "") = .ok (.str p.id) :=
    pick_object apart 0 rfl nofun _
  have name : pick (c.player p) ["name"] (.str "") = .ok (.str p.name) :=
    pick_object apart 1 rfl nofun _
  have level : pick (c.player p) ["level"] (.int 1) = .ok (.int p.level) :=
    pick_object apart 2 rfl nofun _
  have stats : pick (c.player p) ["stats"] (.obj []) = .ok (Encode.mapping .float p.stats) :=
    pick_object apart 4 rfl nofun _
  have items : pick (c.player p) ["items"] (.arr []) = .ok (Encode.list .str p.items) :=
    pick_object apart 5 rfl nofun _
  have status : pick (c.player p) ["status"] (.arr []) = .ok (Encode.list .str p.status) :=
    pick_object apart 6 rfl nofun _
  have relationships : pick (c.player p) ["relationships"] (.obj []) =
      .ok (Encode.mapping .float p.relationships) := pick_object apart 7 rfl nofun _
  rw [playerOf, id, name, level, stats, items, status, relationships]
  simp [bind, Except.bind, part, PlayerState.ofMembers, field, firstPresent, Members.get?_cons,
    list_text_map, mappingOf_written restores_number]

/-- A single member is found by its name. -/
theorem pick_single {name : String} {j default : Json} (filled : j.isNull = false) :
    pick (.obj [(name, j)]) [name] default = .ok j := by
  simp [pick, Members.get?_cons, Option.filter_some, filled]

theorem hour_isNull (w : WorldState) : (ContextStyle.hour w).isNull = false := by
  rw [ContextStyle.hour]
  cases w.time <;> rfl

theorem number_hour (w : WorldState) : number (ContextStyle.hour w) = .ok w.hour := by
  rw [ContextStyle.hour, WorldState.hour]
  cases w.time <;> rfl

theorem weather_ne_null (w : WorldState) : c.weather w ≠ .null := by
  rw [ContextStyle.weather]
  split <;> nofun

theorem weatherOf_written (w : WorldState) : weatherOf (c.weather w) = .str w.weather := by
  rw [ContextStyle.weather]
  split
  · next apart =>
    simp [weatherOf, Members.get?_cons, Json.truthy, Value.ofJson, Value.truthy, apart.2]
  · rfl

theorem currentParts_apart (s : GameState) : ((c.currentParts s).flatMap (·.names)).Nodup := by
  simp [ContextStyle.currentParts, plain]

theorem worldOf_written (s : GameState) (tags : List Json) :
    worldOf (c.current s) (.obj [("hour", ContextStyle.hour s.world)])
      (weatherOf (c.weather s.world)) tags = .ok s.world.timed := by
  have apart := currentParts_apart c s
  have events : pick (c.current s) ["events"] (.arr tags) =
      .ok (Encode.list .str s.world.events) := pick_object apart 3 rfl nofun _
  have flags : pick (c.current s) ["flags"] (.obj []) =
      .ok (Encode.mapping .bool s.world.flags) := pick_object apart 4 rfl nofun _
  simp only [worldOf]
  rw [pick_single (hour_isNull s.world), weatherOf_written, events, flags]
  simp [bind, Except.bind, part, WorldState.ofMembers, field, firstPresent, Members.get?_cons,
    list_text_map, mappingOf_written restores_boolean, number_hour]
  rfl

theorem phaseOf_word (p : SessionPhase) : phaseOf (Encode.word p) = .ok p := by
  cases p <;> rfl

/-- A session is put together from what stands in three places. -/
theorem decode_session (s : SessionState) :
    SessionState.decode (.obj [
      ("turn", .int s.turn), ("phase", .str (Vocabulary.name s.phase)),
      ("location", .str s.location), ("npcs_present", .arr (s.npcsPresent.map .str))]) = .ok s := by
  have phase := SessionPhase.restores s.phase
  rw [Encode.word] at phase
  simp [SessionState.decode, record, field, firstPresent, Members.get?_cons, list_text_map, phase]

end Context

theorem WorldState.timed_eq_self {w : WorldState} (given : w.time.isSome) : w.timed = w := by
  obtain ⟨time, weather, events, flags⟩ := w
  cases time with
  | none => cases given
  | some hour => rfl

open Context in
/-- A state comes back from every context that it can be written as, if the session is where the
player is. A time that was not given comes back as zero, which is what it counts and is dumped
as. -/
theorem GameState.ofContext_context (c : ContextStyle) (s : GameState)
    (here : s.session.location = s.player.location) :
    ofContext (c.context s) = .ok s.timed ∧ s.timed.encode = s.encode ∧
      (s.world.time.isSome → s.timed = s) := by
  refine ⟨?_, s.encode_timed, ?_⟩
  · have apart : ((c.parts s).flatMap (·.names)).Nodup := by
      simp [ContextStyle.parts, ContextPart.plain]
    have inside := currentParts_apart c s
    have current : pick (c.context s) ["currentState", "current_state"] (.obj []) =
        .ok (c.current s) := pick_object apart 0 rfl nofun _
    have mode : pick (c.context s) ["sessionMode", "session_mode"] (.str "exploration") =
        .ok (Encode.word s.session.phase) := pick_object apart 1 rfl nofun _
    have metadata : pick (c.context s) ["metadata"] (.obj []) =
        .ok (.obj [("turn", .int s.session.turn)]) := pick_object apart 2 rfl nofun _
    have npcs : pick (c.context s) ["npcsPresent", "npcs_present"] (.arr []) =
        .ok (Encode.list .str s.session.npcsPresent) := pick_object apart 3 rfl nofun _
    have tags : pick (c.context s) ["contextTags", "context_tags"] (.arr []) =
        .ok (Encode.list .str s.contextTags) := pick_object apart 4 rfl nofun _
    have history : pick (c.context s) ["recentHistory", "recent_history"] (.obj []) =
        .ok (c.history s) := pick_object apart 5 rfl nofun _
    have player : pick (c.current s) ["player"] (.obj []) = .ok (c.player s.player) :=
      pick_object inside 0 rfl nofun _
    have time : pick (c.current s) ["time"] (.obj []) =
        .ok (.obj [("hour", ContextStyle.hour s.world)]) := pick_object inside 1 rfl nofun _
    have weather : pick (c.current s) ["weather"] (.str "clear") = .ok (c.weather s.world) :=
      pick_object inside 2 rfl (fun null => absurd null (weather_ne_null c _)) _
    have story : pick (c.current s) ["story"] .null = .ok (Encode.optional c.story s.story) :=
      pick_object inside 5 rfl (fun _ => rfl) _
    -- One look-up gives the location both to the player and to the session.
    have location : pick (c.player s.player) ["location"] (.str "") =
        .ok (.str s.session.location) := by
      rw [here]
      exact pick_object (playerParts_apart s.player) 3 rfl nofun _
    have playing : playerOf (c.player s.player) (.str s.session.location) = .ok s.player := by
      rw [here]
      exact playerOf_written c s.player
    have turn : pick (.obj [("turn", .int s.session.turn)]) ["turn"] (.int 1) =
        .ok (.int s.session.turn) := pick_single rfl
    have events : pick (c.history s) ["events"] (.arr []) =
        .ok (.arr (s.recentEvents.mapIdx c.event)) := pick_single rfl
    have walked : walk (.arr (s.recentEvents.mapIdx c.event)) =
        .ok (s.recentEvents.mapIdx c.event) := rfl
    have happened : (s.recentEvents.mapIdx c.event).mapM eventOf = .ok s.recentEvents :=
      mapM_eventOf (eventOf_written c) s.recentEvents
    have tagged : Decode.list Decode.text (.arr (s.contextTags.map .str)) = .ok s.contextTags :=
      list_text_map s.contextTags
    simp only [ofContext, ok_bind, current, mode, metadata, npcs, tags, history, player, time,
      weather, story, storyOf_optional, location, playing, worldOf_written, phaseOf_word, turn,
      events, walked, happened, walk_list, decode_session, tagged, Decoded.under_ok, part]
    rfl
  · intro given
    rw [timed, WorldState.timed_eq_self given]

namespace GameState

namespace Sample

/-- Names of both kinds, and nothing where there is nothing. -/
def style : ContextStyle where
  currentState := ⟨"current_state", by decide⟩
  sessionMode := ⟨"sessionMode", by decide⟩
  npcsPresent := ⟨"npcs_present", by decide⟩
  contextTags := ⟨"contextTags", by decide⟩
  recentHistory := ⟨"recent_history", by decide⟩
  currentChapter := ⟨"currentChapter", by decide⟩
  keyEvents := ⟨"key_events", by decide⟩
  eventTime place := if place = 0 then ⟨"actualStartTime", by decide⟩ else ⟨"timestamp", by decide⟩
  weatherApart := true
  leavesOut := true

def departure : Moment := ⟨⟨2026, 5, 4, 10, 0, 0, 0, some 0⟩, by decide⟩

/-- A state of zeros, empty texts and empty lists. -/
def journey : GameState where
  player := { level := 0, location := "pass", stats := [("luck", 0)] }
  world := { time := some 0, weather := "storm", flags := [("night", false)] }
  session := { turn := 0, phase := .combat, location := "pass" }
  story := some {}
  recentEvents := [{ timestamp := some departure }, { id := some "" }]
  contextTags := ["danger"]

end Sample

theorem ofContext_context_journey :
    Sample.journey.session.location = Sample.journey.player.location ∧
      ofContext (.obj [
        ("current_state", .obj [
          ("player", .obj [
            ("id", .str ""), ("name", .str ""), ("level", .int 0), ("location", .str "pass"),
            ("stats", .obj [("luck", .float 0)]), ("items", .arr []), ("status", .arr []),
            ("relationships", .obj [])]),
          ("time", .obj [("hour", .float 0)]),
          ("weather", .obj [("type", .str "storm")]),
          ("events", .arr []),
          ("flags", .obj [("night", .bool false)]),
          ("story", .obj [("progress", .float 0), ("key_events", .arr [])])]),
        ("sessionMode", .str "combat"),
        ("metadata", .obj [("turn", .int 0)]),
        ("npcs_present", .arr []),
        ("contextTags", .arr [.str "danger"]),
        ("recent_history", .obj [("events", .arr [
          .obj [("type", .str ""), ("description", .str ""),
            ("actualStartTime", Encode.moment Sample.departure)],
          .obj [("id", .str ""), ("type", .str ""), ("description", .str "")]])])]) =
        .ok Sample.journey := by
  obtain ⟨back, -, given⟩ := ofContext_context Sample.style Sample.journey rfl
  rw [given rfl] at back
  exact ⟨rfl, back⟩

end GameState

end EntityRules
