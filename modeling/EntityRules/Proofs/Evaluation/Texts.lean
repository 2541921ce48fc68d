import EntityRules.Proofs.Condition.Arranged
import EntityRules.Proofs.Evaluation.Arranged
import EntityRules.Proofs.Evaluation.Steady
import Mathlib.Data.List.Forall2

/-! What evaluation sees of a condition and of a state: their documents, and the texts compared. -/

namespace EntityRules

namespace Value

variable {α : Type} {f : α → Value}

theorem arranged_ofOption (h : ∀ a, (f a).arranged = f a) (v : Option α) :
    (ofOption f v).arranged = ofOption f v := by
  cases v with
  | none => rfl
  | some a => exact h a

theorem arranged_ofList (h : ∀ a, (f a).arranged = f a) (xs : List α) :
    (ofList f xs).arranged = ofList f xs := by
  rw [ofList, arranged, arrangedItems_eq, List.map_map]
  exact congrArg Value.arr (List.map_congr_left fun a _ => h a)

theorem arranged_ofMapping (h : ∀ a, (f a).arranged = f a) (ms : Members α) :
    (ofMapping f ms).arranged = ofMapping f (Json.sorted ms) := by
  have still : (fun m : String × Value => (m.1, m.2.arranged)) ∘ (fun m : String × α => (m.1, f m.2)) =
      fun m => (m.1, f m.2) := by
    funext m
    exact congrArg (Prod.mk m.1) (h m.2)
  rw [ofMapping, arranged, arrangedMembers_eq, List.map_map, still, Json.sorted_map, ofMapping]

end Value

namespace Value

@[simp] theorem arranged_texts (xs : List String) : (ofList .str xs).arranged = ofList .str xs :=
  arranged_ofList (fun _ => rfl) xs

@[simp] theorem arranged_optional (s : Option String) :
    (ofOption .str s).arranged = ofOption .str s :=
  arranged_ofOption (fun _ => rfl) s

@[simp] theorem arranged_moment (m : Option Moment) :
    (ofOption .moment m).arranged = ofOption .moment m :=
  arranged_ofOption (fun _ => rfl) m

@[simp] theorem arranged_floats (ms : Members Float) :
    (ofMapping .float ms).arranged = ofMapping .float (Json.sorted ms) :=
  arranged_ofMapping (fun _ => rfl) ms

@[simp] theorem arranged_bools (ms : Members Bool) :
    (ofMapping .bool ms).arranged = ofMapping .bool (Json.sorted ms) :=
  arranged_ofMapping (fun _ => rfl) ms

end Value

theorem PlayerState.view_arranged (p : PlayerState) : p.view.arranged = p.arranged.view := by
  simp [view, arranged, Value.arranged, Value.arrangedMembers]

theorem WorldState.view_arranged (w : WorldState) : w.view.arranged = w.arranged.view := by
  have time : ((w.time.map Value.float).getD .unset).arranged = .float w.hour := by
    rw [hour]
    cases w.time <;> rfl
  simp [view, arranged, Value.arranged, Value.arrangedMembers, time]

theorem SessionState.view_arranged (s : SessionState) : s.view.arranged = s.view := by
  simp [view, Value.arranged, Value.arrangedMembers]

theorem StoryState.view_arranged (s : StoryState) : s.view.arranged = s.view := by
  simp [view, Value.arranged, Value.arrangedMembers]

theorem RecentEvent.view_arranged (e : RecentEvent) : e.view.arranged = e.view := by
  simp [view, Value.arranged, Value.arrangedMembers]

/-- The view of a state is arranged as the state is. -/
theorem GameState.view_arranged (s : GameState) : s.view.arranged = s.arranged.view := by
  simp [view, arranged, Value.arranged, Value.arrangedMembers, s.player.view_arranged,
    s.world.view_arranged, s.session.view_arranged,
    Value.arranged_ofOption StoryState.view_arranged,
    Value.arranged_ofList RecentEvent.view_arranged]

namespace Condition

/-- The texts that a condition by itself looks at, as a part and a whole. -/
def textsAt (state : GameState) : Condition → Option (String × String)
  | .simple _ path operator value =>
    match (Vocabulary.ofName? operator : Option Comparison), state.view.resolve path with
    | some op, .ok actual => actual.textsRead op (.ofJson value)
    | _, _ => none
  | _ => none

/-- The texts that a condition and those in it look at. -/
def texts (state : GameState) (c : Condition) : List (Option (String × String)) :=
  c.nodes.map (textsAt state)

/-- Conditions that say the same and look at the same texts, each in its state. -/
structure Alike (state state' : GameState) (c c' : Condition) : Prop where
  arranged : c.arranged = c'.arranged
  texts : c.texts state = c'.texts state'

/-- Conditions that come to the same result. -/
def SameResult (table : FunctionTable) (ctx ctx' : EvaluationContext) (c c' : Condition) : Prop :=
  ∀ s s', (evaluate table ctx c s).result = (evaluate table ctx' c' s').result

variable {table : FunctionTable} {ctx ctx' : EvaluationContext} {state state' : GameState}
  {c c' : Condition} {cs cs' : List Condition}

theorem length_nodes_arranged (c : Condition) : c.arranged.nodes.length = c.nodes.length := by
  induction c using inductionOn with
  | compound common operator children ih =>
    have each : (children.map fun c => c.arranged.nodes.length) =
        children.map fun c => c.nodes.length := List.map_congr_left ih
    rw [arranged, nodes, nodes, nodesOf_eq, nodesOf_eq, arrangedAll_eq, List.flatMap_map,
      List.length_cons, List.length_cons, List.length_flatMap, List.length_flatMap, each]
  | _ => rfl

theorem length_texts (h : c.arranged = c'.arranged) :
    (c.texts state).length = (c'.texts state').length := by
  rw [texts, texts, List.length_map, List.length_map, ← length_nodes_arranged c, h,
    length_nodes_arranged]

/-- Conditions that say the same have as many texts, so the texts of lists tell those of each. -/
theorem forall₂_alike (said : cs.map arranged = cs'.map arranged)
    (read : cs.flatMap (texts state) = cs'.flatMap (texts state')) :
    List.Forall₂ (Alike state state') cs cs' := by
  induction cs generalizing cs' with
  | nil =>
    rw [List.map_nil, eq_comm, List.map_eq_nil_iff] at said
    rw [said]
    exact .nil
  | cons c cs ih =>
    cases cs' with
    | nil => cases said
    | cons c' cs' =>
      obtain ⟨first, others⟩ := List.cons.inj said
      rw [List.flatMap_cons, List.flatMap_cons] at read
      obtain ⟨here, behind⟩ := List.append_inj read (length_texts first)
      exact .cons ⟨first, here⟩ (ih others behind)

theorem Alike.children {common common' : Common} {operator operator' : String}
    (h : Alike state state' (.compound common operator cs) (.compound common' operator' cs')) :
    operator = operator' ∧ List.Forall₂ (Alike state state') cs cs' := by
  have said := h.arranged
  have read := h.texts
  rw [Condition.arranged, Condition.arranged, arrangedAll_eq, arrangedAll_eq] at said
  obtain ⟨-, operators, each⟩ := Condition.compound.inj said
  simp only [Condition.texts, nodes, nodesOf_eq, List.map_cons, List.map_flatMap] at read
  exact ⟨operators, forall₂_alike each (List.cons.inj read).2⟩

theorem result_ofCheck {check check' : Except Trouble Bool} (h : Agree (· = ·) check check')
    (s s' : RandomSource) : (Outcome.ofCheck check s).result = (Outcome.ofCheck check' s').result := by
  rcases h.same_or_failed with ⟨b, rfl, rfl⟩ | ⟨t, t', rfl, rfl⟩
  · rfl
  · rfl

theorem result_until (decisive : Bool) (h : List.Forall₂ (SameResult table ctx ctx') cs cs')
    (s s' : RandomSource) : (evaluateUntil decisive table ctx cs s).result =
      (evaluateUntil decisive table ctx' cs' s').result := by
  induction h generalizing s s' with
  | nil => rfl
  | cons first _ ih =>
    rw [evaluateUntil, evaluateUntil, first s s']
    split
    · exact first s s'
    · exact ih _ _

theorem result_negation (h : List.Forall₂ (SameResult table ctx ctx') cs cs')
    (s s' : RandomSource) : (evaluateNegation table ctx cs s).result =
      (evaluateNegation table ctx' cs' s').result := by
  cases h with
  | nil => rfl
  | cons first others =>
    cases others with
    | nil => exact congrArg (!·) (first s s')
    | cons _ _ => rfl

theorem result_simple (hc : ctx.Alike ctx') {common common' : Common} {path operator : String}
    {value value' : Json} (said : value.arranged = value'.arranged)
    (read : textsAt ctx.state (.simple common path operator value) =
      textsAt ctx'.state (.simple common' path operator value')) :
    SameResult table ctx ctx' (.simple common path operator value)
      (.simple common' path operator value') := by
  intro s s'
  have resolved : (ctx.state.view.resolve path).map Value.arranged =
      (ctx'.state.view.resolve path).map Value.arranged := by
    rw [← Value.resolve_arranged, ← Value.resolve_arranged, GameState.view_arranged,
      GameState.view_arranged, hc.state]
  rw [evaluate, evaluate, evaluateSimple, evaluateSimple]
  cases known : (Vocabulary.ofName? operator : Option Comparison) with
  | none => rfl
  | some op =>
    apply result_ofCheck
    simp only [textsAt, known] at read
    cases hp : ctx.state.view.resolve path <;> cases hp' : ctx'.state.view.resolve path <;>
      rw [hp, hp'] at resolved read
    · exact trivial
    · cases resolved
    · cases resolved
    · next actual actual' =>
      have literal : (Value.ofJson value).arranged = (Value.ofJson value').arranged := by
        rw [Value.arranged_ofJson, Value.arranged_ofJson, said]
      rw [Except.bind, Except.bind, Value.compare_congr (Except.ok.inj resolved) literal read]
      exact .refl _

theorem result_compound {common common' : Common} (operator : String)
    (each : List.Forall₂ (SameResult table ctx ctx') cs cs') :
    SameResult table ctx ctx' (.compound common operator cs) (.compound common' operator cs') := by
  intro s s'
  rw [evaluate, evaluate]
  split
  · rfl
  · exact result_negation each s s'
  · rw [evaluateAll_eq, evaluateAll_eq]
    cases each with
    | nil => rfl
    | cons first others => exact result_until false (.cons first others) s s'
  · rw [evaluateAny_eq, evaluateAny_eq]
    exact result_until true each s s'

/-- Two random sources may stand behind the calls, so the function has to be steady. -/
theorem result_function (hc : ctx.Alike ctx') {common common' : Common} {name : String}
    {parameters parameters' : Members Json} (like : Parameters.Alike parameters parameters')
    (called : ∀ f, Members.get? table name = some f → f.IsSteady ∧ f.IgnoresOrder) :
    SameResult table ctx ctx' (.function common name parameters)
      (.function common' name parameters') := by
  intro s s'
  rw [evaluate, evaluate, evaluateFunction, evaluateFunction]
  cases known : Members.get? table name with
  | none => rfl
  | some f =>
    obtain ⟨steady, orderless⟩ := called f known
    have agree := orderless parameters parameters' ctx ctx' s like hc
    rw [steady parameters' ctx' s s'] at agree
    exact result_ofCheck agree _ _

theorem result_contextual (hc : ctx.Alike ctx') {common common' : Common} {category : String}
    {data data' : Members Json} (like : Parameters.Alike data data') :
    SameResult table ctx ctx' (.contextual common category data)
      (.contextual common' category data') := by
  intro s s'
  rw [evaluate, evaluate, evaluateContextual, evaluateContextual]
  split
  · rfl
  · next type _ => exact result_ofCheck (type.check_agree like hc) s s'

/-- Conditions that say the same and look at the same texts come to the same in states that are the
same up to the order of members, if the functions that they call look at neither that order nor the
random source. -/
theorem sameResult (hc : ctx.Alike ctx')
    (calls : CallsOnly (fun f => f.IsSteady ∧ f.IgnoresOrder) table c)
    (h : Alike ctx.state ctx'.state c c') : SameResult table ctx ctx' c c' := by
  have said := h.arranged
  induction c using inductionOn generalizing c' with
  | simple common path operator value =>
    cases c' with
    | simple common' path' operator' value' =>
      rw [arranged, arranged] at said
      obtain ⟨-, rfl, rfl, values⟩ := Condition.simple.inj said
      exact result_simple hc values (List.head_eq_of_cons_eq h.texts)
    | _ => cases said
  | compound common operator children ih =>
    cases c' with
    | compound common' operator' children' =>
      obtain ⟨rfl, alike⟩ := h.children
      have inside : ∀ c ∈ children, ∀ c', Alike ctx.state ctx'.state c c' →
          SameResult table ctx ctx' c c' :=
        fun c hc c' alike => ih c hc (calls.child c hc) alike alike.arranged
      exact result_compound operator
        (((List.forall₂_and_left _ _).mpr ⟨inside, alike⟩).imp fun _ _ both => both.1 _ both.2)
    | _ => cases said
  | function common name parameters =>
    cases c' with
    | function common' name' parameters' =>
      rw [arranged, arranged] at said
      obtain ⟨-, rfl, same⟩ := Condition.function.inj said
      exact result_function hc (congrArg Json.obj same)
        (calls common name parameters (by simp [nodes]))
    | _ => cases said
  | contextual common category data =>
    cases c' with
    | contextual common' category' data' =>
      rw [arranged, arranged] at said
      obtain ⟨-, rfl, same⟩ := Condition.contextual.inj said
      exact result_contextual hc (congrArg Json.obj same)
    | _ => cases said
  | unknown common type =>
    cases c' with
    | unknown common' type' =>
      intro s s'
      rw [evaluate, evaluate]
      rfl
    | _ => cases said

/-- So they hold in the same contexts. -/
theorem holds_alike (hc : ctx.Alike ctx')
    (calls : CallsOnly (fun f => f.IsSteady ∧ f.IgnoresOrder) table c)
    (h : Alike ctx.state ctx'.state c c') : Holds table ctx c ↔ Holds table ctx' c' := by
  have same := sameResult hc calls h
  exact ⟨fun holds s => (same s s).symm.trans (holds s), fun holds s => (same s s).trans (holds s)⟩

end Condition

end EntityRules
