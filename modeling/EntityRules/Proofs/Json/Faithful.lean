import EntityRules.Proofs.Json.Canonical
import EntityRules.Proofs.Members
import EntityRules.Proofs.Reread.Condition
import EntityRules.Proofs.Reread.Part
import EntityRules.Query.Fingerprint

/-! Encodings that can be told apart: what differs has canonical texts that differ. -/

namespace EntityRules

namespace Json

open Members

variable {α : Type}

theorem arrangedMembers_eq (ms : Members Json) :
    arrangedMembers ms = ms.map fun m => (m.1, m.2.arranged) := by
  induction ms with
  | nil => rfl
  | cons m rest ih => rw [arrangedMembers, ih, List.map_cons]

theorem arrangedItems_eq (items : List Json) : arrangedItems items = items.map arranged := by
  induction items with
  | nil => rfl
  | cons j rest ih => rw [arrangedItems, ih, List.map_cons]

/-- Sorted members give the same value for a name. -/
@[simp] theorem get?_sorted (ms : Members α) (name : String) :
    get? (sorted ms) name = ms.get? name := by
  have first : ∀ l : Members α, get? l name = (l.filter (·.1 = name)).head?.map (·.2) := by
    intro l
    rw [get?, List.head?_filter]
  rw [first, first, filter_sorted]

/-- Objects that are the same up to order give the same for a name. -/
theorem map_arranged_get? {ms ms' : Members Json}
    (same : (obj ms).arranged = (obj ms').arranged) (name : String) :
    (ms.get? name).map arranged = (ms'.get? name).map arranged := by
  have members : sorted (arrangedMembers ms) = sorted (arrangedMembers ms') := Json.obj.inj same
  calc (ms.get? name).map arranged
      = get? (sorted (arrangedMembers ms)) name := by
        rw [get?_sorted, arrangedMembers_eq, get?_map]
    _ = (ms'.get? name).map arranged := by
        rw [members, get?_sorted, arrangedMembers_eq, get?_map]

theorem arranged_get? {ms ms' : Members Json} (same : (obj ms).arranged = (obj ms').arranged)
    (name : String) {j j' : Json} (hj : ms.get? name = some j) (hj' : ms'.get? name = some j') :
    j.arranged = j'.arranged := by
  have values := map_arranged_get? same name
  rw [hj, hj'] at values
  exact Option.some.inj values

end Json

/-- An encoding by whose documents, up to the order of members, all can be told apart. -/
def Encode.Faithful {α : Type} (enc : α → Json) : Prop :=
  Function.Injective fun a => (enc a).arranged

namespace Encode

variable {α : Type} {enc : α → Json}

theorem faithful_float : Faithful .float := fun _ _ same => Json.float.inj same

theorem faithful_int : Faithful .int := fun _ _ same => Json.int.inj same

theorem faithful_bool : Faithful .bool := fun _ _ same => Json.bool.inj same

theorem faithful_str : Faithful .str := fun _ _ same => Json.str.inj same

theorem faithful_word [Vocabulary α] (h : Function.Injective (Vocabulary.name : α → String)) :
    Faithful (word : α → Json) :=
  fun _ _ same => h (Json.str.inj same)

/-- Every moment is read back from its text, so no two have one text. -/
theorem faithful_moment : Faithful moment := by
  intro m m' same
  have texts : m.text = m'.text := Json.str.inj same
  have read := Moment.read_text m
  rw [texts, Moment.read_text m'] at read
  exact (Except.ok.inj read).symm

theorem Faithful.list (h : Faithful enc) : Faithful (list enc) := by
  intro xs ys same
  have items := Json.arr.inj same
  rw [Json.arrangedItems_eq, Json.arrangedItems_eq, List.map_map, List.map_map] at items
  exact h.list_map items

/-- Null stands for nothing, so it must not stand for something. -/
theorem Faithful.optional (h : Faithful enc) (filled : ∀ a, (enc a).arranged.isNull = false) :
    Faithful (optional enc) := by
  have apart : ∀ a, (enc a).arranged ≠ .null := by
    intro a null
    have full := filled a
    rw [null] at full
    cases full
  intro a b same
  cases a with
  | none =>
    cases b with
    | none => rfl
    | some b => exact absurd same.symm (apart b)
  | some a =>
    cases b with
    | none => exact absurd same (apart a)
    | some b => exact congrArg some (h same)

/-- Mappings are told apart up to their order. -/
theorem Faithful.mapping (h : Faithful enc) {ms ms' : Members α}
    (same : (mapping enc ms).arranged = (mapping enc ms').arranged) :
    Json.sorted ms = Json.sorted ms' := by
  have members := Json.obj.inj same
  simp only [Json.arrangedMembers_eq, List.map_map, Function.comp_def] at members
  rw [Json.sorted_map (fun a => (enc a).arranged), Json.sorted_map (fun a => (enc a).arranged)]
    at members
  refine Function.Injective.list_map ?_ members
  rintro ⟨name, a⟩ ⟨name', a'⟩ pair
  obtain ⟨rfl, value⟩ := Prod.mk.inj pair
  exact congrArg (Prod.mk name) (h value)

/-- Mappings of which only the order differs are not told apart. -/
theorem mapping_reordered (enc : α → Json) {ms ms' : Members α} (h : ms.Perm ms')
    (names : (Members.names ms).Nodup) :
    (mapping enc ms).arranged = (mapping enc ms').arranged := by
  simp only [mapping, Json.arranged, Json.arrangedMembers_eq, List.map_map, Function.comp_def]
  rw [Json.sorted_map (fun a => (enc a).arranged), Json.sorted_map (fun a => (enc a).arranged),
    Json.sorted_eq_of_perm h names]

/-- Members of objects that are the same up to order were written from the same. -/
theorem Faithful.member (h : Faithful enc) {ms ms' : Members Json} {a b : α}
    (same : (Json.obj ms).arranged = (Json.obj ms').arranged)
    (name : String) (ha : ms.get? name = some (enc a)) (hb : ms'.get? name = some (enc b)) :
    a = b :=
  h (Json.arranged_get? same name ha hb)

end Encode

open Encode

theorem EntityKind.faithful_word : Faithful (word : EntityKind → Json) := by
  apply Encode.faithful_word
  intro a b same
  cases a <;> cases b <;> simp_all [Vocabulary.name]

theorem SessionPhase.faithful_word : Faithful (word : SessionPhase → Json) := by
  apply Encode.faithful_word
  intro a b same
  cases a <;> cases b <;> simp_all [Vocabulary.name]

theorem PriorityRange.faithful_encode : Faithful PriorityRange.encode := by
  rintro ⟨low, high⟩ ⟨low', high'⟩ same
  have number := faithful_float.optional fun _ => rfl
  obtain rfl : low = low' := number.member same "min" rfl rfl
  obtain rfl : high = high' := number.member same "max" rfl rfl
  rfl

theorem TimeConstraints.faithful_encode : Faithful TimeConstraints.encode := by
  rintro ⟨start, finish⟩ ⟨start', finish'⟩ same
  have time := faithful_moment.optional fun _ => rfl
  obtain rfl : start = start' := time.member same "start_time" rfl rfl
  obtain rfl : finish = finish' := time.member same "end_time" rfl rfl
  rfl

theorem ScoreRange.faithful_encode : Faithful ScoreRange.encode := by
  rintro ⟨low, high⟩ ⟨low', high'⟩ same
  obtain rfl : low = low' := faithful_float.member same "min" rfl rfl
  obtain rfl : high = high' := faithful_float.member same "max" rfl rfl
  rfl

theorem MinimumBound.faithful_encode : Faithful MinimumBound.encode := by
  rintro ⟨least⟩ ⟨least'⟩ same
  obtain rfl : least = least' := faithful_float.member same "min" rfl rfl
  rfl

theorem DifficultyMatch.faithful_encode : Faithful DifficultyMatch.encode := by
  rintro ⟨target, tolerance⟩ ⟨target', tolerance'⟩ same
  obtain rfl : target = target' := faithful_float.member same "target" rfl rfl
  obtain rfl : tolerance = tolerance' := faithful_float.member same "tolerance" rfl rfl
  rfl

theorem SoftBounds.faithful_encode : Faithful SoftBounds.encode := by
  rintro ⟨score, alignment, relevance, difficulty⟩ ⟨score', alignment', relevance', difficulty'⟩
    same
  have least := MinimumBound.faithful_encode.optional fun _ => rfl
  obtain rfl : score = score' := (ScoreRange.faithful_encode.optional fun _ => rfl).member same
    "recommendation_score" rfl rfl
  obtain rfl : alignment = alignment' := least.member same "player_alignment" rfl rfl
  obtain rfl : relevance = relevance' := least.member same "story_relevance" rfl rfl
  obtain rfl : difficulty = difficulty' :=
    (DifficultyMatch.faithful_encode.optional fun _ => rfl).member same "difficulty_match" rfl rfl
  rfl

theorem QueryOptions.faithful_encode : Faithful QueryOptions.encode := by
  rintro ⟨most, related, order, cached⟩ ⟨most', related', order', cached'⟩ same
  obtain rfl : most = most' := (faithful_int.optional fun _ => rfl).member same
    "max_results" rfl rfl
  obtain rfl : related = related' := faithful_bool.member same "include_related" rfl rfl
  obtain rfl : order = order' := faithful_str.member same "sort_by" rfl rfl
  obtain rfl : cached = cached' := faithful_bool.member same "use_cache" rfl rfl
  rfl

/-- Filters that are written alike, up to the order of members. Only their conditions may differ. -/
structure QueryFilter.Alike (f f' : QueryFilter) : Prop where
  entityTypes : f.entityTypes = f'.entityTypes
  tags : f.tags = f'.tags
  priority : f.priority = f'.priority
  excludeIds : f.excludeIds = f'.excludeIds
  location : f.location = f'.location
  conditions : f.conditions.map (List.map fun c => c.encode.arranged) =
    f'.conditions.map (List.map fun c => c.encode.arranged)
  contextFactors : f.contextFactors = f'.contextFactors
  timeConstraints : f.timeConstraints = f'.timeConstraints
  softBounds : f.softBounds = f'.softBounds

theorem QueryFilter.alike {f f' : QueryFilter} (same : f.encode.arranged = f'.encode.arranged) :
    Alike f f' := by
  have texts := faithful_str.list.optional fun _ => rfl
  refine ⟨?_, ?_, ?_, ?_, ?_, ?_, ?_, ?_, ?_⟩
  · exact (EntityKind.faithful_word.list.optional fun _ => rfl).member same
      "entity_types" rfl rfl
  · exact texts.member same "tags" rfl rfl
  · exact (PriorityRange.faithful_encode.optional fun _ => rfl).member same "priority" rfl rfl
  · exact texts.member same "exclude_ids" rfl rfl
  · exact (faithful_str.optional fun _ => rfl).member same "location" rfl rfl
  · have written := Json.arranged_get? same "conditions" rfl rfl
    cases hf : f.conditions <;> cases hf' : f'.conditions
    · rfl
    · rw [hf, hf'] at written
      cases written
    · rw [hf, hf'] at written
      cases written
    · simp only [hf, hf', Encode.optional, Condition.arr_encodeAll] at written
      simpa [Json.arranged, Json.arrangedItems_eq, Encode.list, Function.comp_def] using written
  · exact texts.member same "context_factors" rfl rfl
  · exact (TimeConstraints.faithful_encode.optional fun _ => rfl).member same
      "time_constraints" rfl rfl
  · exact (SoftBounds.faithful_encode.optional fun _ => rfl).member same
      "ai_criteria" rfl rfl

/-- A player with the mappings sorted. -/
def PlayerState.arranged (p : PlayerState) : PlayerState :=
  { p with stats := Json.sorted p.stats, relationships := Json.sorted p.relationships }

/-- A world with its flags sorted, and with a time. -/
def WorldState.arranged (w : WorldState) : WorldState :=
  { w with time := some w.hour, flags := Json.sorted w.flags }

/-- A state with all mappings sorted, and with a time. -/
def GameState.arranged (s : GameState) : GameState :=
  { s with player := s.player.arranged, world := s.world.arranged }

theorem PlayerState.arranged_eq {p p' : PlayerState}
    (same : p.view.dump.arranged = p'.view.dump.arranged) : p.arranged = p'.arranged := by
  obtain ⟨id, name, level, location, stats, items, status, relationships⟩ := p
  obtain ⟨id', name', level', location', stats', items', status', relationships'⟩ := p'
  simp only [view, Value.dump, Value.dumpMembers, Value.dump_ofList, Value.dump_ofMapping] at same
  obtain rfl : id = id' := faithful_str.member same "id" rfl rfl
  obtain rfl : name = name' := faithful_str.member same "name" rfl rfl
  obtain rfl : level = level' := faithful_int.member same "level" rfl rfl
  obtain rfl : location = location' := faithful_str.member same "location" rfl rfl
  obtain rfl : items = items' := faithful_str.list.member same "items" rfl rfl
  obtain rfl : status = status' := faithful_str.list.member same "status" rfl rfl
  have numbers : Json.sorted stats = Json.sorted stats' :=
    faithful_float.mapping (Json.arranged_get? same "stats" rfl rfl)
  have standings : Json.sorted relationships = Json.sorted relationships' :=
    faithful_float.mapping (Json.arranged_get? same "relationships" rfl rfl)
  rw [arranged, arranged, numbers, standings]

theorem WorldState.arranged_eq {w w' : WorldState}
    (same : w.view.dump.arranged = w'.view.dump.arranged) : w.arranged = w'.arranged := by
  obtain ⟨time, weather, events, flags⟩ := w
  obtain ⟨time', weather', events', flags'⟩ := w'
  have hour : ∀ t : Option Float, ((t.map Value.float).getD .unset).dump = .float (t.getD 0) := by
    intro t
    cases t <;> rfl
  simp only [view, Value.dump, Value.dumpMembers, Value.dump_ofList, Value.dump_ofMapping, hour]
    at same
  have hours : time.getD 0 = time'.getD 0 := faithful_float.member same "time" rfl rfl
  obtain rfl : weather = weather' := faithful_str.member same "weather" rfl rfl
  obtain rfl : events = events' := faithful_str.list.member same "events" rfl rfl
  have set : Json.sorted flags = Json.sorted flags' :=
    faithful_bool.mapping (Json.arranged_get? same "flags" rfl rfl)
  rw [arranged, arranged, set, WorldState.hour, WorldState.hour, hours]

theorem SessionState.faithful_view : Faithful fun s : SessionState => s.view.dump := by
  rintro ⟨turn, phase, location, npcs⟩ ⟨turn', phase', location', npcs'⟩ same
  simp only [view, Value.dump, Value.dumpMembers, Value.dump_ofList] at same
  obtain rfl : turn = turn' := faithful_int.member same "turn" rfl rfl
  obtain rfl : phase = phase' := SessionPhase.faithful_word.member same "phase" rfl rfl
  obtain rfl : location = location' := faithful_str.member same "location" rfl rfl
  obtain rfl : npcs = npcs' := faithful_str.list.member same "npcs_present" rfl rfl
  rfl

theorem StoryState.faithful_view : Faithful fun s : StoryState => s.view.dump := by
  rintro ⟨chapter, progress, events⟩ ⟨chapter', progress', events'⟩ same
  simp only [view, Value.dump, Value.dumpMembers, Value.dump_ofList, Value.dump_ofOption] at same
  obtain rfl : chapter = chapter' := (faithful_str.optional fun _ => rfl).member same
    "current_chapter" rfl rfl
  obtain rfl : progress = progress' := faithful_float.member same "progress" rfl rfl
  obtain rfl : events = events' := faithful_str.list.member same "key_events" rfl rfl
  rfl

theorem RecentEvent.faithful_view : Faithful fun e : RecentEvent => e.view.dump := by
  rintro ⟨id, type, description, time⟩ ⟨id', type', description', time'⟩ same
  simp only [view, Value.dump, Value.dumpMembers, Value.dump_ofOption] at same
  obtain rfl : id = id' := (faithful_str.optional fun _ => rfl).member same "id" rfl rfl
  obtain rfl : type = type' := faithful_str.member same "type" rfl rfl
  obtain rfl : description = description' := faithful_str.member same "description" rfl rfl
  obtain rfl : time = time' := (faithful_moment.optional fun _ => rfl).member same
    "timestamp" rfl rfl
  rfl

/-- States that are written alike are the same with their mappings sorted. -/
theorem GameState.arranged_eq {s s' : GameState}
    (same : s.encode.arranged = s'.encode.arranged) : s.arranged = s'.arranged := by
  obtain ⟨player, world, session, story, events, tags⟩ := s
  obtain ⟨player', world', session', story', events', tags'⟩ := s'
  simp only [encode, view, Value.dump, Value.dumpMembers, Value.dump_ofList, Value.dump_ofOption]
    at same
  have players : player.arranged = player'.arranged :=
    PlayerState.arranged_eq (Json.arranged_get? same "player" rfl rfl)
  have worlds : world.arranged = world'.arranged :=
    WorldState.arranged_eq (Json.arranged_get? same "world" rfl rfl)
  obtain rfl : session = session' := SessionState.faithful_view.member same "session" rfl rfl
  obtain rfl : story = story' := (StoryState.faithful_view.optional fun _ => rfl).member same
    "story" rfl rfl
  obtain rfl : events = events' := RecentEvent.faithful_view.list.member same
    "recent_events" rfl rfl
  obtain rfl : tags = tags' := faithful_str.list.member same "context_tags" rfl rfl
  rw [arranged, arranged, players, worlds]

end EntityRules
