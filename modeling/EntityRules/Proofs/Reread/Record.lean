import EntityRules.Proofs.Members
import EntityRules.Proofs.Reread.Part

/-! Records of game content that are read back, with the members that no field took. -/

namespace EntityRules

namespace Decode

variable {ms extras : Members Json} {fields : List (List String)}

/-- The names that come first among those of each field. -/
def firsts (fields : List (List String)) : List String := fields.filterMap List.head?

theorem firstPresent_of_mem {name : String} (h : name ∈ Members.names ms) (others : List String) :
    ∃ j, firstPresent ms (name :: others) = some (name, j) := by
  cases present : ms.get? name with
  | none => exact absurd h (Members.get?_eq_none_iff.mp present)
  | some j => exact ⟨j, by rw [firstPresent, present]⟩

theorem not_mem_firsts_of_mem_untaken {m : String × Json} (hm : m ∈ untaken ms fields) :
    m.1 ∉ firsts fields := by
  obtain ⟨inside, notTaken⟩ := List.mem_filter.mp hm
  intro first
  obtain ⟨names, hnames, head⟩ := List.mem_filterMap.mp first
  obtain ⟨others, rfl⟩ : ∃ others, names = m.1 :: others := by
    cases names with
    | nil => cases head
    | cons name others => exact ⟨others, by rw [Option.some.inj head]⟩
  obtain ⟨j, taken⟩ := firstPresent_of_mem (Members.mem_names_of_mem inside) others
  have : m.1 ∈ fields.filterMap fun names => (firstPresent ms names).map (·.1) :=
    List.mem_filterMap.mpr ⟨m.1 :: others, hnames, by rw [taken, Option.map_some]⟩
  simp [this] at notTaken

/-- Members behind those of all fields are the untaken ones if none has the first name of a
field. -/
theorem untaken_append (all : Members.names ms = firsts fields)
    (further : ∀ m ∈ extras, m.1 ∉ firsts fields) : untaken (ms ++ extras) fields = extras := by
  have taken : (fields.filterMap fun names => (firstPresent (ms ++ extras) names).map (·.1)) =
      firsts fields := by
    rw [firsts]
    apply List.filterMap_congr
    intro names hnames
    cases names with
    | nil => rfl
    | cons name others =>
      have inside : name ∈ Members.names (ms ++ extras) := by
        have first : name ∈ firsts fields := List.mem_filterMap.mpr ⟨_, hnames, rfl⟩
        rw [← all] at first
        rw [Members.names, List.map_append]
        exact List.mem_append_left _ first
      obtain ⟨j, found⟩ := firstPresent_of_mem inside others
      rw [found, Option.map_some, List.head?_cons]
  have before : ∀ m ∈ ms, m.1 ∈ firsts fields := fun m hm => all ▸ Members.mem_names_of_mem hm
  simp only [untaken]
  rw [taken, Members.filter_append_of_names before further]

end Decode

namespace EntityRecord

open Decode Decoded

/-- The members of a record's fields as they are written. -/
def written (e : EntityRecord Float) : Members Json := [
  ("id", .str e.id), ("type", Encode.word e.kind), ("name", Encode.optional .str e.name),
  ("tags", Encode.list .str e.tags), ("priority", .float e.priority),
  ("location", Encode.optional .str e.location),
  ("required_level", Encode.optional .int e.requiredLevel),
  ("story_relevance", Encode.optional .float e.storyRelevance),
  ("player_alignment", Encode.optional .float e.playerAlignment),
  ("difficulty", Encode.optional .float e.difficulty),
  ("timestamp", Encode.optional Encode.moment e.timestamp),
  ("available_from", Encode.optional Encode.moment e.availableFrom),
  ("available_until", Encode.optional Encode.moment e.availableUntil),
  ("required_phase", Encode.optional .str e.requiredPhase),
  ("requirements", Encode.optional (·.view.dump) e.requirements),
  ("min_event_interval", Encode.optional .float e.minEventInterval),
  ("resource_requirements", Encode.optional (·.view.dump) e.resourceRequirements),
  ("metadata", .obj e.metadata)]

theorem encode_eq (e : EntityRecord Float) : e.encode = .obj (e.written ++ e.extras) := by
  simp [encode, view, written, Value.dump, Value.dumpMembers, Value.dumpMembers_ofMembers,
    Encode.word]

theorem names_written (e : EntityRecord Float) : e.written.names = firsts fieldNames := rfl

theorem yields_extras (j : Json) :
    (decode j).Yields fun e => ∀ m ∈ e.extras, m.1 ∉ firsts fieldNames := by
  -- Of all that the fields were read as, only the members they left over count here.
  refine yields_record (fun ms => ?_) j
  repeat refine yields_seq ?_
  refine yields_map ?_
  intros
  exact not_mem_firsts_of_mem_untaken ‹_›

theorem rereads : Rereads decode decode encode := by
  intro j e h
  have extras : untaken (e.written ++ e.extras) fieldNames = e.extras :=
    untaken_append e.names_written (yields_extras j e h)
  have kind := (restores_word EntityKind.namesWords).optional (fun _ => nofun) (some e.kind)
  have requirements := EntityRequirements.restores.optional (fun _ => nofun) e.requirements
  have resources := ResourceRequirements.restores.optional (fun _ => nofun) e.resourceRequirements
  rw [Encode.optional] at kind
  rw [encode_eq]
  simp only [decode, record, extras]
  simp [written, field, required, firstPresent, Members.get?_cons, kind, requirements, resources]

end EntityRecord

end EntityRules
