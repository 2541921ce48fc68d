import EntityRules.Evaluation.BuiltIn
import EntityRules.Evaluation.Category
import EntityRules.Proofs.Evaluation.Record
import EntityRules.Proofs.Value.Arranged

/-! Checks do not look at the order of members. -/

namespace EntityRules

/-- Two computations give related answers, or both fail. -/
def Agree {α : Type} (R : α → α → Prop) : Except Trouble α → Except Trouble α → Prop
  | .ok a, .ok b => R a b
  | .error _, .error _ => True
  | _, _ => False

namespace Agree

variable {α β : Type} {R : α → α → Prop} {S : β → β → Prop} {x y : Except Trouble α}

theorem refl (x : Except Trouble α) : Agree (· = ·) x x := by
  cases x with
  | ok a => exact rfl
  | error t => exact trivial

/-- Both answer the same, or both fail. -/
theorem same_or_failed (h : Agree (· = ·) x y) :
    (∃ a, x = .ok a ∧ y = .ok a) ∨ ∃ t t', x = .error t ∧ y = .error t' := by
  cases x with
  | ok a =>
    cases y with
    | ok b => exact .inl ⟨a, rfl, congrArg Except.ok (Eq.symm h)⟩
    | error t => cases h
  | error t =>
    cases y with
    | ok b => cases h
    | error t' => exact .inr ⟨t, t', rfl, rfl⟩

theorem bind {f g : α → Except Trouble β} (h : Agree R x y)
    (next : ∀ a b, R a b → Agree S (f a) (g b)) : Agree S (x >>= f) (y >>= g) := by
  cases x <;> cases y
  · exact trivial
  · cases h
  · cases h
  · exact next _ _ h

end Agree

/-- Contexts that are the same up to the order of members, and up to a time that is not given. -/
structure EvaluationContext.Alike (ctx ctx' : EvaluationContext) : Prop where
  state : ctx.state.arranged = ctx'.state.arranged
  entityId : ctx.entityId = ctx'.entityId
  kind : ctx.kind = ctx'.kind
  metadata : ctx.metadata = ctx'.metadata

namespace Parameters

/-- Documents that are the same up to the order of members. -/
def Like (j j' : Json) : Prop := j.arranged = j'.arranged

/-- Parameters that are the same up to the order of members. -/
def Alike (ps ps' : Members Json) : Prop := Like (.obj ps) (.obj ps')

variable {j j' : Json} {ps ps' : Members Json} {ctx ctx' : EvaluationContext}

theorem Like.value (h : Like j j') : (Value.ofJson j).arranged = (Value.ofJson j').arranged := by
  rw [Value.arranged_ofJson, Value.arranged_ofJson, h]

theorem truthy_arranged (v : Value) : v.arranged.truthy = v.truthy := by
  cases v with
  | unset => decide
  | arr items => simp [Value.arranged, Value.arrangedItems_eq, Value.truthy]
  | obj ms =>
    have none : (Json.sorted (Value.arrangedMembers ms)).isEmpty = ms.isEmpty := by
      rw [(Json.sorted_perm _).isEmpty_eq, Value.arrangedMembers_eq, List.isEmpty_map]
    simp only [Value.arranged, Value.truthy, none]
  | _ => rfl

theorem Like.truthy (h : Like j j') : j.truthy = j'.truthy := by
  rw [Json.truthy, Json.truthy, ← truthy_arranged, h.value, truthy_arranged]

theorem Like.number? (h : Like j j') : number? j = number? j' := by
  rw [Parameters.number?, Parameters.number?, ← Value.number?_arranged, h.value,
    Value.number?_arranged]

theorem Alike.getD (h : Alike ps ps') (name : String) (default : Json) :
    Like ((ps.get? name).getD default) ((ps'.get? name).getD default) := by
  have values := Json.map_arranged_get? h name
  cases hp : ps.get? name <;> cases hp' : ps'.get? name <;> rw [hp, hp'] at values
  · rfl
  · cases values
  · cases values
  · exact Option.some.inj values

theorem Alike.get (h : Alike ps ps') (name : String) : Like (get ps name) (get ps' name) :=
  h.getD name .null

theorem Alike.require (h : Alike ps ps') (owner name : String) :
    Agree Like (require ps owner name) (require ps' owner name) := by
  have values := Json.map_arranged_get? h name
  unfold Parameters.require
  cases hp : ps.get? name with
  | none =>
    cases hp' : ps'.get? name with
    | none => exact trivial
    | some j' =>
      rw [hp, hp'] at values
      cases values
  | some j =>
    cases hp' : ps'.get? name with
    | none =>
      rw [hp, hp'] at values
      cases values
    | some j' =>
      rw [hp, hp'] at values
      have like : Like j j' := Option.some.inj values
      cases j <;> cases j' <;> first | exact like | exact trivial | cases like

theorem Alike.requireNumber (h : Alike ps ps') (owner name : String) :
    Agree (· = ·) (requireNumber ps owner name) (requireNumber ps' owner name) := by
  refine (h.require owner name).bind fun j j' like => ?_
  rw [like.number?]
  cases Parameters.number? j' with
  | error t => exact trivial
  | ok x =>
    cases x with
    | none => exact trivial
    | some x => exact rfl

theorem Alike.requireComparison (h : Alike ps ps') (owner : String) (default : Json) :
    Agree (· = ·) (requireComparison ps owner default) (requireComparison ps' owner default) := by
  have raw := h.getD "operator" default
  unfold Parameters.requireComparison
  generalize (ps.get? "operator").getD default = j at raw ⊢
  generalize (ps'.get? "operator").getD default = j' at raw ⊢
  cases j <;> cases j' <;> first | exact trivial | cases raw
  exact .refl _

/-- Lists of the same things: of the same values up to the order of members, or of the same names
in some order. -/
inductive SameThings : List Value → List Value → Prop
  | values {vs vs' : List Value} (h : vs.map Value.arranged = vs'.map Value.arranged) :
      SameThings vs vs'
  | names {ns ns' : List String} (h : ns.Perm ns') : SameThings (ns.map .str) (ns'.map .str)

theorem Alike.names_perm (h : Alike ps ps') : ps.names.Perm ps'.names := by
  have members := Json.obj.inj h
  have arranged : ∀ ms : Members Json, (Json.arrangedMembers ms).names = ms.names := by
    intro ms
    rw [Json.arrangedMembers_eq, Members.names, List.map_map]
    rfl
  rw [← arranged ps, ← arranged ps']
  have sorted := ((Json.sorted_perm (Json.arrangedMembers ps)).map Prod.fst).symm
  rw [members] at sorted
  exact sorted.trans ((Json.sorted_perm (Json.arrangedMembers ps')).map Prod.fst)

theorem Like.listed (h : Like j j') : Agree SameThings (listed j) (listed j') := by
  have empty := h.truthy
  unfold Parameters.listed
  rw [empty]
  split
  · exact .values rfl
  · cases j with
    | arr items =>
      cases j' with
      | arr items' =>
        refine .values ?_
        rw [← Value.arrangedItems_eq, ← Value.arrangedItems_eq]
        exact Value.arr.inj h.value
      | _ => cases h
    | obj ms =>
      cases j' with
      | obj ms' => exact .names (Alike.names_perm h)
      | _ => cases h
    | str s =>
      cases j' with
      | str s' =>
        cases h
        exact .values rfl
      | _ => cases h
    | _ => cases j' <;> first | exact trivial | cases h

theorem every_names {check : Value → Except Trouble Bool} {f : String → Bool}
    (total : ∀ s, check (.str s) = .ok (f s)) (ns : List String) :
    every check (ns.map .str) = .ok (ns.all f) := by
  induction ns with
  | nil => rfl
  | cons s rest ih =>
    rw [List.map_cons, every, total, ih, List.all_cons]
    cases f s <;> rfl

/-- Checking all of the same things comes to the same, as long as no name makes the check fail. -/
theorem SameThings.every {check check' : Value → Except Trouble Bool}
    (step : ∀ v v', v.arranged = v'.arranged → Agree (· = ·) (check v) (check' v'))
    {f : String → Bool} (total : ∀ s, check (.str s) = .ok (f s)) {vs vs' : List Value}
    (h : SameThings vs vs') : Agree (· = ·) (every check vs) (every check' vs') := by
  cases h with
  | values same =>
    induction vs generalizing vs' with
    | nil =>
      obtain rfl := List.map_eq_nil_iff.mp same.symm
      exact rfl
    | cons v rest ih =>
      cases vs' with
      | nil => cases same
      | cons v' rest' =>
        obtain ⟨first, others⟩ := List.cons.inj same
        rw [Parameters.every, Parameters.every]
        rcases (step v v' first).same_or_failed with ⟨b, hv, hv'⟩ | ⟨t, t', hv, hv'⟩
        · rw [hv, hv']
          cases b with
          | true => exact ih others
          | false => exact rfl
        · rw [hv, hv']
          exact trivial
  | names perm =>
    have total' : ∀ s, check' (.str s) = .ok (f s) := by
      intro s
      rcases (step (.str s) (.str s) rfl).same_or_failed with ⟨b, hs, hs'⟩ | ⟨t, -, hs, -⟩
      · rw [hs', ← hs, total]
      · rw [total] at hs
        cases hs
    rw [every_names total, every_names total']
    exact perm.all_eq

theorem Like.hasText (h : Like j j') (s : String) :
    Agree (· = ·) (hasText j s) (hasText j' s) := by
  cases j with
  | arr items =>
    cases j' with
    | arr items' =>
      have values : Value.arrangedItems (Value.ofItems items) =
        Value.arrangedItems (Value.ofItems items') := Value.arr.inj h.value
      have one := Value.any_same_arranged (Value.ofItems items) (.str s)
      have other := Value.any_same_arranged (Value.ofItems items') (.str s)
      exact one.symm.trans (values ▸ other)
    | _ => cases h
  | obj ms =>
    cases j' with
    | obj ms' =>
      have values := congrArg Option.isSome (Json.map_arranged_get? h s)
      rw [Option.isSome_map, Option.isSome_map] at values
      rw [Parameters.hasText, Parameters.hasText, Members.has_eq_isSome_get?,
        Members.has_eq_isSome_get?, values]
      exact .refl _
    | _ => cases h
  | str t =>
    cases j' with
    | str t' =>
      cases h
      exact .refl _
    | _ => cases h
  | _ => cases j' <;> first | exact trivial | cases h

/-- Looking up looks at no order, neither of the mapping nor of what is looked up. -/
theorem lookUp_congr {α : Type} {ms ms' : Members α} {v v' : Value}
    (same : ∀ name, ms.get? name = ms'.get? name) (h : v.arranged = v'.arranged) :
    lookUp ms v = lookUp ms' v' := by
  have still : ∀ v : Value, lookUp ms v.arranged = lookUp ms v := fun v => by cases v <;> rfl
  rw [← still v, h, still v', lookUp, lookUp]
  simp only [same]

end Parameters

/-- Mappings that are sorted alike give the same for a name. -/
theorem Members.get?_of_sorted {α : Type} {ms ms' : Members α}
    (same : Json.sorted ms = Json.sorted ms') (name : String) : ms.get? name = ms'.get? name := by
  rw [← Json.get?_sorted, same, Json.get?_sorted]

namespace EvaluationContext.Alike

variable {ctx ctx' : EvaluationContext}

theorem session (h : ctx.Alike ctx') : ctx.state.session = ctx'.state.session :=
  congrArg (·.session) h.state

theorem location (h : ctx.Alike ctx') :
    ctx.state.player.location = ctx'.state.player.location :=
  congrArg (·.player.location) h.state

theorem items (h : ctx.Alike ctx') : ctx.state.player.items = ctx'.state.player.items :=
  congrArg (·.player.items) h.state

theorem relationships (h : ctx.Alike ctx') (name : String) :
    ctx.state.player.relationships.get? name = ctx'.state.player.relationships.get? name :=
  Members.get?_of_sorted (congrArg (·.player.relationships) h.state) name

theorem hour (h : ctx.Alike ctx') : ctx.state.world.hour = ctx'.state.world.hour :=
  Option.some.inj (congrArg (·.world.time) h.state)

theorem flags (h : ctx.Alike ctx') (name : String) :
    ctx.state.world.flags.get? name = ctx'.state.world.flags.get? name :=
  Members.get?_of_sorted (congrArg (·.world.flags) h.state) name

theorem events (h : ctx.Alike ctx') : ctx.state.world.events = ctx'.state.world.events :=
  congrArg (·.world.events) h.state

theorem weather (h : ctx.Alike ctx') : ctx.state.world.weather = ctx'.state.world.weather :=
  congrArg (·.world.weather) h.state

end EvaluationContext.Alike

theorem Value.same_congr {a a' b b' : Value} (left : a.arranged = a'.arranged)
    (right : b.arranged = b'.arranged) : same a b = same a' b' := by
  rw [← same_arranged, left, right, same_arranged]

/-- A function that does not look at the order of members. -/
def ConditionFunction.IgnoresOrder (f : ConditionFunction) : Prop :=
  ∀ ps ps' ctx ctx' s, Parameters.Alike ps ps' → ctx.Alike ctx' →
    Agree (· = ·) (f.body ps ctx s).1 (f.body ps' ctx' s).1

namespace BuiltIn

open Parameters

variable {ps ps' : Members Json} {ctx ctx' : EvaluationContext}

theorem distance_agree (h : Alike ps ps') (hc : ctx.Alike ctx') :
    Agree (· = ·) (checkDistance ps ctx) (checkDistance ps' ctx') := by
  refine (h.require "distance" "from").bind fun origin origin' place => ?_
  refine (h.require "distance" "to").bind fun destination destination' goal => ?_
  refine (h.requireNumber "distance" "value").bind ?_
  rintro threshold _ rfl
  refine (h.requireComparison "distance" .null).bind ?_
  rintro op _ rfl
  rw [Value.same_congr place.value goal.value, Value.same_congr place.value rfl,
    Value.same_congr rfl goal.value, hc.location]
  exact .refl _

theorem item_agree (h : Alike ps ps') (hc : ctx.Alike ctx') :
    Agree (· = ·) (checkItem ps ctx) (checkItem ps' ctx') := by
  refine (h.require "has_item" "item_id").bind fun item item' thing => ?_
  have quantity := (h.getD "quantity" (.int 1)).number?
  have owned : ∀ i : String,
      Value.same (.str i) (Value.ofJson item) = Value.same (.str i) (Value.ofJson item') :=
    fun i => Value.same_congr rfl thing.value
  simp only [quantity, owned, hc.items]
  exact .refl _

theorem relationship_agree (h : Alike ps ps') (hc : ctx.Alike ctx') :
    Agree (· = ·) (checkRelationship ps ctx) (checkRelationship ps' ctx') := by
  refine (h.require "relationship_level" "npc_id").bind fun npc npc' someone => ?_
  refine (h.requireNumber "relationship_level" "value").bind ?_
  rintro threshold _ rfl
  refine (h.requireComparison "relationship_level" .null).bind ?_
  rintro op _ rfl
  rw [lookUp_congr hc.relationships someone.value]
  exact .refl _

theorem time_agree (h : Alike ps ps') (hc : ctx.Alike ctx') :
    Agree (· = ·) (checkTime ps ctx) (checkTime ps' ctx') := by
  refine (h.requireNumber "time_between" "start").bind ?_
  rintro start _ rfl
  refine (h.requireNumber "time_between" "end").bind ?_
  rintro finish _ rfl
  rw [hc.hour]
  exact .refl _

theorem roll_agree (h : Alike ps ps') : Agree (· = ·) (rollOf ps) (rollOf ps') := by
  refine (h.requireNumber "dice_roll" "dice").bind ?_
  rintro dice _ rfl
  refine (Agree.refl _).bind ?_
  rintro count _ rfl
  refine (h.requireNumber "dice_roll" "sides").bind ?_
  rintro sides _ rfl
  refine (Agree.refl _).bind ?_
  rintro faces _ rfl
  refine (h.requireNumber "dice_roll" "target").bind ?_
  rintro target _ rfl
  refine (h.requireComparison "dice_roll" (.str "greater_equal")).bind ?_
  rintro op _ rfl
  exact .refl _

/-- None of the functions that come with the engine looks at the order of members. -/
theorem ignoresOrder (b : BuiltIn) : ConditionFunction.IgnoresOrder ⟨b.body, true⟩ := by
  intro ps ps' ctx ctx' s h hc
  cases b with
  | distance => exact distance_agree h hc
  | hasItem => exact item_agree h hc
  | relationshipLevel => exact relationship_agree h hc
  | timeBetween => exact time_agree h hc
  | probability =>
    change Agree _ (rollProbability ps s).1 (rollProbability ps' s).1
    have chance : Agree (· = ·) (chanceOf ps) (chanceOf ps') := h.requireNumber "probability" "chance"
    unfold rollProbability
    rcases chance.same_or_failed with ⟨x, hp, hp'⟩ | ⟨t, t', hp, hp'⟩ <;> rw [hp, hp']
    · exact .refl _
    · exact trivial
  | diceRoll =>
    change Agree _ (rollDice ps s).1 (rollDice ps' s).1
    unfold rollDice
    rcases (roll_agree h).same_or_failed with ⟨roll, hp, hp'⟩ | ⟨t, t', hp, hp'⟩ <;> rw [hp, hp']
    · exact .refl _
    · exact trivial

theorem table_ignoresOrder (name : String) (f : ConditionFunction)
    (h : Members.get? table name = some f) : f.IgnoresOrder := by
  obtain ⟨b, -, rfl⟩ := of_get?_table h
  exact ignoresOrder b

end BuiltIn

namespace ContextType

open Parameters

variable {data data' : Members Json} {ctx ctx' : EvaluationContext}

theorem isPhase_congr {required required' : Json} (h : Like required required')
    (current : SessionPhase) : isPhase required current = isPhase required' current := by
  cases required <;> cases required' <;> first | rfl | (cases h <;> rfl)

theorem story_agree (h : Alike data data') (hc : ctx.Alike ctx') :
    Agree (· = ·) (checkStory data ctx) (checkStory data' ctx') := by
  have required := h.get "required_phase"
  have flags : Agree (· = ·)
      (listed (get data "story_flags") >>= every (isSet ctx.state.world.flags))
      (listed (get data' "story_flags") >>= every (isSet ctx'.state.world.flags)) := by
    refine (h.get "story_flags").listed.bind fun flags flags' same => ?_
    refine same.every ?_ (f := fun s => (ctx.state.world.flags.get? s).getD false) ?_
    · intro v v' like
      rw [isSet, isSet, lookUp_congr hc.flags like]
      exact .refl _
    · intro s
      rfl
  have rest : ∀ fits : Bool, Agree (· = ·)
      (if fits then listed (get data "story_flags") >>= every (isSet ctx.state.world.flags)
        else pure false)
      (if fits then listed (get data' "story_flags") >>= every (isSet ctx'.state.world.flags)
        else pure false) := by
    intro fits
    split
    · exact flags
    · exact .refl _
  simp only [checkStory, required.truthy, isPhase_congr required, hc.session]
  split
  · refine (Agree.refl _).bind ?_
    rintro fits _ rfl
    exact rest fits
  · exact rest true

theorem behavior_agree (h : Alike data data') (hc : ctx.Alike ctx') :
    Agree (· = ·) (checkBehavior data ctx) (checkBehavior data' ctx') := by
  refine (h.require "player_behavior" "behavior_pattern").bind fun pattern pattern' like => ?_
  refine (h.requireNumber "player_behavior" "threshold").bind ?_
  rintro threshold _ rfl
  rw [hc.metadata]
  split
  · rw [lookUp_congr (fun _ => rfl) like.value]
    exact .refl _
  · exact .refl _

theorem world_agree (h : Alike data data') (hc : ctx.Alike ctx') :
    Agree (· = ·) (checkWorld data ctx) (checkWorld data' ctx') := by
  have allowed := h.get "weather_conditions"
  unfold checkWorld
  simp only [hc.events, hc.weather, allowed.truthy]
  refine (h.get "required_events").listed.bind fun events events' same => ?_
  refine (same.every ?_ (f := fun s => ctx'.state.world.events.any fun e =>
    Value.same (.str e) (.str s)) ?_).bind ?_
  · intro v v' like
    simp only [Value.same_congr rfl like]
    exact .refl _
  · intro s
    rfl
  · rintro fits _ rfl
    split
    · exact allowed.hasText _
    · exact .refl _

theorem isInRange_congr (h : Alike data data') (turn : Int) :
    isInRange turn data = isInRange turn data' := by
  unfold isInRange
  rw [(h.get "min").number?, (h.get "max").number?]

theorem place_agree {wanted wanted' : Json} (h : Like wanted wanted') (location : String) :
    Agree (· = ·) (isPlace location wanted) (isPlace location wanted') := by
  have empty := h.truthy
  unfold isPlace
  rw [empty]
  split
  · exact .refl _
  · cases wanted <;> cases wanted' <;> first | exact trivial | cases h
    exact .refl _

/-- Whether a turn is in the range that a document gives, if it gives one. -/
def turnFits (turn : Int) (range : Json) : Except Trouble Bool :=
  match range with
  | .obj range => isInRange turn range
  | j => if j.truthy then throw .turnRangeNotMapping else pure true

/-- Whether those who are asked for are there, at the place that is asked for. -/
def sceneFits (session : SessionState) (npcs location : Json) : Except Trouble Bool := do
  let present (npc : Value) : Except Trouble Bool :=
    .ok (session.npcsPresent.any fun n => Value.same (.str n) npc)
  if ← every present (← listed npcs) then isPlace session.location location else return false

theorem checkSession_eq (data : Members Json) (ctx : EvaluationContext) :
    checkSession data ctx =
      turnFits ctx.state.session.turn (get data "turn_range") >>= fun fits =>
        if !fits then pure false
        else sceneFits ctx.state.session (get data "required_npcs") (get data "location_type") := by
  unfold checkSession turnFits
  cases get data "turn_range" with
  | obj range => rfl
  | _ => dsimp only; split <;> rfl

theorem turn_agree {range range' : Json} (h : Like range range') (turn : Int) :
    Agree (· = ·) (turnFits turn range) (turnFits turn range') := by
  have empty := h.truthy
  unfold turnFits
  cases range with
  | obj members =>
    cases range' with
    | obj members' =>
      dsimp only
      rw [isInRange_congr h turn]
      exact .refl _
    | _ => cases h
  | _ =>
    cases range' with
    | obj members' => cases h
    | _ =>
      dsimp only
      rw [empty]
      exact .refl _

theorem scene_agree {npcs npcs' location location' : Json} (those : Like npcs npcs')
    (place : Like location location') (session : SessionState) :
    Agree (· = ·) (sceneFits session npcs location) (sceneFits session npcs' location') := by
  refine those.listed.bind fun vs vs' same => ?_
  refine (same.every ?_ (f := fun s => session.npcsPresent.any fun n =>
    Value.same (.str n) (.str s)) ?_).bind ?_
  · intro v v' like
    simp only [Value.same_congr rfl like]
    exact .refl _
  · intro s
    rfl
  · rintro present _ rfl
    split
    · exact place_agree place _
    · exact .refl _

theorem session_agree (h : Alike data data') (hc : ctx.Alike ctx') :
    Agree (· = ·) (checkSession data ctx) (checkSession data' ctx') := by
  rw [checkSession_eq, checkSession_eq, hc.session]
  refine (turn_agree (h.get "turn_range") _).bind ?_
  rintro fits _ rfl
  split
  · exact .refl _
  · exact scene_agree (h.get "required_npcs") (h.get "location_type") _

/-- None of the checks of categories looks at the order of members. -/
theorem check_agree (type : ContextType) (h : Alike data data') (hc : ctx.Alike ctx') :
    Agree (· = ·) (check type data ctx) (check type data' ctx') := by
  cases type with
  | storyPhase => exact story_agree h hc
  | playerBehavior => exact behavior_agree h hc
  | worldState => exact world_agree h hc
  | sessionContext => exact session_agree h hc

end ContextType

end EntityRules
