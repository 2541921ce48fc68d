import EntityRules.Proofs.Decode.Outright
import EntityRules.State.Context

/-! What keeps a session context from being a game state. -/

namespace EntityRules

namespace Context

variable {α β : Type} {cause : Prop}

/-- A computation over a context may fail because of a shape, and with faults. A part that is no
pair needs a cause, and nothing is refused outright. -/
structure FailsFor (cause : Prop) (r : Except ContextError α) : Prop where
  pairs : r = .error .notAPair → cause
  faults : ∀ name why, r = .error (.invalid name why) → ∃ fs, why = .faults fs

theorem FailsFor.mono {cause' : Prop} {r : Except ContextError α} (h : FailsFor cause r)
    (weaker : cause → cause') : FailsFor cause' r :=
  ⟨fun failed => weaker (h.pairs failed), h.faults⟩

theorem failsFor_ok (a : α) : FailsFor cause (.ok a) := ⟨nofun, nofun⟩

theorem failsFor_notAPair (h : cause) : FailsFor cause (.error .notAPair : Except ContextError α) :=
  ⟨fun _ => h, nofun⟩

theorem failsFor_shape : FailsFor cause (.error .shape : Except ContextError α) := ⟨nofun, nofun⟩

theorem FailsFor.bind {r : Except ContextError α} {f : α → Except ContextError β}
    (h : FailsFor cause r) (next : ∀ a, r = .ok a → FailsFor cause (f a)) :
    FailsFor cause (r >>= f) := by
  cases r with
  | ok a => exact next a rfl
  | error why =>
    refine ⟨fun failed => h.pairs ?_, fun name refusal failed => h.faults name refusal ?_⟩
    · exact congrArg Except.error (Except.error.inj failed)
    · exact congrArg Except.error (Except.error.inj failed)

theorem FailsFor.map {r : Except ContextError α} (f : α → β) (h : FailsFor cause r) :
    FailsFor cause (f <$> r) :=
  h.bind fun a _ => failsFor_ok (f a)

theorem failsFor_mapM {f : α → Except ContextError β} (each : ∀ a, FailsFor cause (f a))
    (as : List α) : FailsFor cause (as.mapM f) := by
  induction as with
  | nil => exact failsFor_ok []
  | cons a rest ih =>
    rw [List.mapM_cons]
    exact (each a).bind fun b _ => ih.bind fun bs _ => failsFor_ok (b :: bs)

theorem failsFor_pick (source : Json) (names : List String) (default : Json) :
    FailsFor cause (pick source names default) := by
  cases source with
  | obj ms => exact failsFor_ok _
  | str s =>
    rw [pick]
    split
    · exact failsFor_shape
    · exact failsFor_ok _
  | arr items =>
    rw [pick]
    split
    · exact failsFor_shape
    · exact failsFor_ok _
  | _ =>
    unfold pick
    dsimp only
    split
    · exact failsFor_shape
    · exact failsFor_ok _

theorem failsFor_walk (j : Json) : FailsFor cause (walk j) := by
  unfold walk
  split
  · exact failsFor_ok _
  · exact failsFor_shape

theorem failsFor_phaseOf (j : Json) : FailsFor cause (phaseOf j) := by
  cases j with
  | arr items => exact failsFor_shape
  | obj ms => exact failsFor_shape
  | _ => exact failsFor_ok _

/-- A record without outright refusals. -/
theorem failsFor_part (name : String) {a : Decoded α} (h : a.outright = none) :
    FailsFor cause (part name a) := by
  cases a with
  | ok v => exact failsFor_ok v
  | refused why =>
    refine ⟨nofun, fun other refusal failed => ?_⟩
    obtain ⟨-, rfl⟩ := ContextError.invalid.inj (Except.error.inj failed)
    exact Decoded.faults_of_outright h rfl

/-- Something that can be walked through in other than two steps. -/
def Unpaired (j : Json) : Prop := ∃ parts, j.elements? = some parts ∧ parts.length ≠ 2

theorem elements?_of_walk {j : Json} {items : List Json} (h : walk j = .ok items) :
    j.elements? = some items := by
  unfold walk at h
  split at h
  · next found => exact (Except.ok.inj h) ▸ found
  · cases h

theorem failsFor_pair (j : Json) : FailsFor (Unpaired j) (pair j) := by
  unfold pair
  split
  · next why failed =>
    have walked : FailsFor (Unpaired j) (walk j) := failsFor_walk j
    rw [failed] at walked
    exact ⟨fun same => walked.pairs (congrArg Except.error (Except.error.inj same)),
      fun name refusal same =>
        walked.faults name refusal (congrArg Except.error (Except.error.inj same))⟩
  · exact failsFor_shape
  · exact failsFor_shape
  · exact failsFor_ok _
  · next parts _ _ two walked =>
    have unpaired : Unpaired j := by
      refine ⟨parts, elements?_of_walk walked, fun length => ?_⟩
      obtain ⟨a, b, rfl⟩ := List.length_eq_two.mp length
      exact two a b rfl
    exact failsFor_notAPair unpaired

/-- Something other than an object that is walked through for pairs and has an item that is none. -/
def HasUnpaired (j : Json) : Prop :=
  ∃ items, j.elements? = some items ∧ ∃ item ∈ items, Unpaired item

/-- The loop over what is walked through for pairs. -/
theorem failsFor_putPairs {items : List Json} (h : ∀ item ∈ items, Unpaired item → cause)
    (done : List (Json × Json)) :
    FailsFor cause (forIn items done fun item done => do
      return ForInStep.yield (putPair done (← pair item))) := by
  induction items generalizing done with
  | nil => exact failsFor_ok done
  | cons item rest ih =>
    rw [List.forall_mem_cons] at h
    rw [List.forIn_cons]
    refine FailsFor.bind (((failsFor_pair item).mono h.1).bind fun p _ => failsFor_ok _) ?_
    rintro step taken
    cases paired : pair item with
    | error why =>
      rw [paired] at taken
      cases taken
    | ok p =>
      rw [paired] at taken
      cases taken
      exact ih h.2 _

theorem failsFor_pairs (j : Json) : FailsFor (HasUnpaired j) (pairs j) := by
  have walked : FailsFor (HasUnpaired j) (do
      let mut done : List (Json × Json) := []
      for item in ← walk j do
        done := putPair done (← pair item)
      return done) := by
    refine (failsFor_walk j).bind fun items steps => ?_
    refine (failsFor_putPairs ?_ []).bind fun done _ => failsFor_ok done
    exact fun item hi unpaired => ⟨items, elements?_of_walk steps, item, hi, unpaired⟩
  cases j with
  | obj ms => exact failsFor_ok _
  | _ => exact walked

theorem outright_membersOf {dec : Json → Decoded α} (h : ∀ j, (dec j).outright = none)
    (ps : List (Json × Json)) : (membersOf dec ps).outright = none := by
  induction ps with
  | nil => rfl
  | cons p rest ih => simp [membersOf, ih, h]

theorem outright_mappingOf (name : String) {dec : Json → Decoded α}
    (h : ∀ j, (dec j).outright = none) (ps : List (Json × Json)) :
    (mappingOf name dec ps).outright = none := by
  rw [mappingOf, Decoded.outright_under, outright_membersOf h]

theorem failsFor_storyOf (raw : Json) : FailsFor cause (storyOf raw) := by
  unfold storyOf
  split
  · refine (failsFor_pick ..).bind fun chapter _ => (failsFor_pick ..).bind fun progress _ =>
      (failsFor_pick ..).bind fun source _ => (failsFor_walk _).bind fun events _ => ?_
    exact (failsFor_part _ (StoryState.outright_decode _)).map some
  · exact failsFor_ok none

theorem failsFor_eventOf (raw : Json) : FailsFor cause (eventOf raw) := by
  unfold eventOf
  refine (failsFor_pick ..).bind fun id _ => (failsFor_pick ..).bind fun type _ =>
    (failsFor_pick ..).bind fun description _ => (failsFor_pick ..).bind fun timestamp _ => ?_
  exact failsFor_part _ (RecentEvent.outright_decode _)

/-- A value under one of two names in a part of a context has an item that is no pair. -/
def HasUnpairedAt (source : Json) (name : String) : Prop :=
  ∃ j, pick source [name] (.obj []) = .ok j ∧ HasUnpaired j

theorem failsFor_playerOf (raw location : Json) :
    FailsFor (HasUnpairedAt raw "stats" ∨ HasUnpairedAt raw "relationships")
      (playerOf raw location) := by
  unfold playerOf
  refine (failsFor_pick ..).bind fun id _ => (failsFor_pick ..).bind fun name _ =>
    (failsFor_pick ..).bind fun level _ => (failsFor_pick ..).bind fun stats hs =>
    ((failsFor_pairs stats).mono fun found => .inl ⟨stats, hs, found⟩).bind fun numbers _ =>
    (failsFor_pick ..).bind fun items _ => (failsFor_walk _).bind fun items _ =>
    (failsFor_pick ..).bind fun status _ => (failsFor_walk _).bind fun status _ =>
    (failsFor_pick ..).bind fun others ho =>
    ((failsFor_pairs others).mono fun found => .inr ⟨others, ho, found⟩).bind fun relations _ => ?_
  apply failsFor_part
  rw [PlayerState.outright_ofMembers, outright_mappingOf _ Decode.outright_number,
    outright_mappingOf _ Decode.outright_number]
  rfl

theorem failsFor_worldOf (current time weather : Json) (tags : List Json) :
    FailsFor (HasUnpairedAt current "flags") (worldOf current time weather tags) := by
  have rest : ∀ hour : Json, FailsFor (HasUnpairedAt current "flags") (do
      let events ← walk (← pick current ["events"] (.arr tags))
      let flags ← pairs (← pick current ["flags"] (.obj []))
      part "WorldState" (WorldState.ofMembers
        [("time", hour), ("weather", weather), ("events", .arr events)]
        (mappingOf "flags" Decode.boolean flags))) := by
    intro hour
    refine (failsFor_pick ..).bind fun events _ => (failsFor_walk _).bind fun events _ =>
      (failsFor_pick ..).bind fun flags hf =>
      ((failsFor_pairs flags).mono fun found => ⟨flags, hf, found⟩).bind fun flags _ => ?_
    apply failsFor_part
    rw [WorldState.outright_ofMembers, outright_mappingOf _ Decode.outright_boolean]
  unfold worldOf
  cases time with
  | obj ms => exact (failsFor_pick ..).bind fun hour _ => rest hour
  | _ => exact rest _

/-- The numbers of the player or the flags of the world in a context have an item that is no pair.
-/
def HoldsUnpaired (context : Json) : Prop :=
  ∃ current, pick context ["currentState", "current_state"] (.obj []) = .ok current ∧
    ((∃ player, pick current ["player"] (.obj []) = .ok player ∧
      (HasUnpairedAt player "stats" ∨ HasUnpairedAt player "relationships")) ∨
      HasUnpairedAt current "flags")

/-- A context that is no game state has a shape or faults, or an item that is no pair where numbers
or flags are given by name. -/
theorem failsFor_ofContext (context : Json) :
    FailsFor (HoldsUnpaired context) (GameState.ofContext context) := by
  unfold GameState.ofContext
  refine (failsFor_pick ..).bind fun current hc => (failsFor_pick ..).bind fun player hp =>
    (failsFor_pick ..).bind fun time _ => (failsFor_pick ..).bind fun weather _ =>
    (failsFor_pick ..).bind fun metadata _ => (failsFor_pick ..).bind fun tags _ =>
    (failsFor_walk _).bind fun tags _ => (failsFor_pick ..).bind fun mode _ =>
    (failsFor_phaseOf _).bind fun phase _ => (failsFor_pick ..).bind fun story _ =>
    (failsFor_storyOf _).bind fun story _ => (failsFor_pick ..).bind fun history _ =>
    (failsFor_pick ..).bind fun events _ => (failsFor_walk _).bind fun events _ =>
    (failsFor_mapM failsFor_eventOf _).bind fun recent _ => (failsFor_pick ..).bind fun place _ =>
    ((failsFor_playerOf player place).mono fun found =>
      ⟨current, hc, .inl ⟨player, hp, found⟩⟩).bind fun player _ =>
    ((failsFor_worldOf ..).mono fun found => ⟨current, hc, .inr found⟩).bind fun world _ =>
    (failsFor_pick ..).bind fun turn _ => (failsFor_pick ..).bind fun npcs _ =>
    (failsFor_walk _).bind fun npcs _ =>
    (failsFor_part _ (SessionState.outright_decode _)).bind fun session _ =>
    (failsFor_part _ ?_).bind fun contextTags _ => failsFor_ok _
  simp

end Context

end EntityRules
