import EntityRules.Proofs.Condition
import EntityRules.Proofs.Evaluation.Composition

/-! Conditions that use no random function. -/

namespace EntityRules

namespace Outcome

/-- What an outcome tells, apart from the source that is left. -/
def told (o : Outcome) : Outcome := { o with source := {} }

/-- What is told of something is the same for every random source. -/
def Settled (come : RandomSource → Outcome) : Prop := ∀ s t, (come s).told = (come t).told

theorem result_eq_of_told {o o' : Outcome} (h : o.told = o'.told) : o.result = o'.result :=
  congrArg (·.result) h

theorem told_after (first next : Outcome) :
    (first.after next).told = first.told.after next.told := rfl

theorem settled_ofCheck (check : Except Trouble Bool) : Settled (.ofCheck check) := by
  intro s t
  cases check <;> rfl

end Outcome

/-- A function that answers the same whatever the random source holds. -/
def ConditionFunction.IsSteady (f : ConditionFunction) : Prop :=
  ∀ ps ctx s t, (f.body ps ctx s).1 = (f.body ps ctx t).1

namespace Condition

/-- A condition that calls functions of a sort only, at any depth. -/
def CallsOnly (sort : ConditionFunction → Prop) (table : FunctionTable) (c : Condition) : Prop :=
  ∀ common name parameters, .function common name parameters ∈ c.nodes →
    ∀ f, Members.get? table name = some f → sort f

/-- A condition that calls steady functions only, at any depth. -/
def IsSteady (table : FunctionTable) (c : Condition) : Prop :=
  ∀ common name parameters, .function common name parameters ∈ c.nodes →
    ∀ f, Members.get? table name = some f → f.IsSteady

/-- A condition holds when it comes to true for every random source. -/
def Holds (table : FunctionTable) (ctx : EvaluationContext) (c : Condition) : Prop :=
  ∀ s, (evaluate table ctx c s).result = true

open Outcome (Settled)

variable {table : FunctionTable} {ctx : EvaluationContext}

theorem nodesOf_eq (cs : List Condition) : nodesOf cs = cs.flatMap nodes := by
  induction cs with
  | nil => rfl
  | cons c rest ih => rw [nodesOf, ih, List.flatMap_cons]

/-- What a child calls, the condition calls. -/
theorem CallsOnly.child {sort : ConditionFunction → Prop} {common : Common} {operator : String}
    {children : List Condition} (h : CallsOnly sort table (.compound common operator children)) :
    ∀ c ∈ children, CallsOnly sort table c := by
  intro c hc common' name parameters hn
  apply h common' name parameters
  rw [nodes, nodesOf_eq]
  exact List.mem_cons_of_mem _ (List.mem_flatMap.mpr ⟨c, hc, hn⟩)

/-- The children of a steady condition are steady. -/
theorem IsSteady.child {common : Common} {operator : String} {children : List Condition}
    (h : IsSteady table (.compound common operator children)) :
    ∀ c ∈ children, IsSteady table c := by
  have calls : CallsOnly ConditionFunction.IsSteady table (.compound common operator children) := h
  exact calls.child

theorem settled_evaluateFunction {name : String}
    (h : ∀ f, Members.get? table name = some f → f.IsSteady) (ctx : EvaluationContext)
    (parameters : Members Json) : Settled (evaluateFunction table ctx name parameters) := by
  intro s t
  unfold evaluateFunction
  cases hf : Members.get? table name with
  | none => rfl
  | some f =>
    have same := h f hf parameters ctx s t
    simp only [same]
    cases (f.body parameters ctx t).1 <;> rfl

/-- Each condition finds another source, but what is told of all up to a decision is the same. -/
theorem settled_until (decisive : Bool) {cs : List Condition}
    (h : ∀ c ∈ cs, Settled (evaluate table ctx c)) :
    Settled (evaluateUntil decisive table ctx cs) := by
  induction cs with
  | nil => exact fun _ _ => rfl
  | cons c rest ih =>
    intro s t
    have first := h c List.mem_cons_self s t
    have others := ih fun d hd => h d (List.mem_cons_of_mem _ hd)
    rw [evaluateUntil, evaluateUntil, Outcome.result_eq_of_told first]
    split
    · exact first
    · rw [Outcome.told_after, Outcome.told_after, first,
        others (evaluate table ctx c s).source (evaluate table ctx c t).source]

theorem settled_negation {cs : List Condition} (h : ∀ c ∈ cs, Settled (evaluate table ctx c)) :
    Settled (evaluateNegation table ctx cs) := by
  match cs with
  | [c] => exact fun s t => congrArg Outcome.negated (h c List.mem_cons_self s t)
  | [] => exact fun _ _ => rfl
  | _ :: _ :: _ => exact fun _ _ => rfl

/-- What is told of a steady condition does not depend on the source. -/
theorem settled_evaluate (ctx : EvaluationContext) (c : Condition) (h : c.IsSteady table) :
    Settled (evaluate table ctx c) := by
  induction c using inductionOn with
  | simple common path operator value =>
    intro s t
    rw [evaluate, evaluate, evaluateSimple, evaluateSimple]
    split
    · rfl
    · exact Outcome.settled_ofCheck _ s t
  | compound common operator children ih =>
    have each : ∀ c ∈ children, Settled (evaluate table ctx c) :=
      fun c hc => ih c hc (h.child c hc)
    intro s t
    rw [evaluate, evaluate]
    split
    · rfl
    · exact settled_negation each s t
    · split
      · rfl
      · rw [evaluateAll_eq, evaluateAll_eq]
        exact settled_until false each s t
    · rw [evaluateAny_eq, evaluateAny_eq]
      exact settled_until true each s t
  | function common name parameters =>
    intro s t
    rw [evaluate, evaluate]
    exact settled_evaluateFunction (h common name parameters (by simp [nodes])) ctx parameters s t
  | contextual common category data =>
    intro s t
    rw [evaluate, evaluate, evaluateContextual, evaluateContextual]
    split
    · rfl
    · exact Outcome.settled_ofCheck _ s t
  | unknown common type =>
    intro s t
    rw [evaluate, evaluate]
    rfl

theorem holds_iff {c : Condition} (h : IsSteady table c) (s : RandomSource) :
    Holds table ctx c ↔ (evaluate table ctx c s).result = true :=
  ⟨fun holds => holds s,
    fun hs t => (Outcome.result_eq_of_told (settled_evaluate ctx c h t s)).trans hs⟩

/-- Steady conditions are all true, one after the other, exactly if each of them holds. -/
theorem result_until_iff {cs : List Condition} (h : ∀ c ∈ cs, IsSteady table c)
    (s : RandomSource) :
    (evaluateUntil false table ctx cs s).result = true ↔ ∀ c ∈ cs, Holds table ctx c := by
  induction cs generalizing s with
  | nil => simp [evaluateUntil, Outcome.quiet]
  | cons c rest ih =>
    have first : Holds table ctx c ↔ _ := holds_iff (h c List.mem_cons_self) s
    have others := ih (fun d hd => h d (List.mem_cons_of_mem _ hd)) (evaluate table ctx c s).source
    rw [evaluateUntil, List.forall_mem_cons, first, ← others]
    cases hc : (evaluate table ctx c s).result <;> simp [hc, Outcome.after]

end Condition

/-- Whether a name is that of a built-in function that draws. -/
def BuiltIn.isRandomName (name : String) : Bool :=
  ((Vocabulary.ofName? name).map BuiltIn.isRandom).getD false

/-- Functions of which only those under the names of random built-in functions draw. -/
def FunctionTable.DrawsByName (table : FunctionTable) : Prop :=
  ∀ name f, Members.get? table name = some f → BuiltIn.isRandomName name = false → f.IsSteady

namespace BuiltIn

/-- Of the functions that come with the engine, those that are not random are steady. -/
theorem isSteady {b : BuiltIn} (h : b.isRandom = false) :
    ConditionFunction.IsSteady ⟨b.body, true⟩ := by
  intro ps ctx s t
  cases b with
  | probability => cases h
  | diceRoll => cases h
  | _ => rfl

theorem isRandomName_name (b : BuiltIn) : isRandomName (Vocabulary.name b) = b.isRandom := by
  cases b <;> decide

theorem table_drawsByName : FunctionTable.DrawsByName table := by
  intro name f hf hn
  obtain ⟨b, rfl, rfl⟩ := of_get?_table hf
  exact isSteady (isRandomName_name b ▸ hn)

end BuiltIn

/-- Registering a function that draws nothing keeps random functions to their names. -/
theorem FunctionTable.DrawsByName.put {table : FunctionTable} (h : table.DrawsByName)
    {f : ConditionFunction} (hf : f.IsSteady) (name : String) :
    FunctionTable.DrawsByName (Members.put table name f) := by
  intro other g hg
  rw [Members.get?_put] at hg
  split at hg
  · obtain rfl : f = g := by simpa using hg
    exact fun _ => hf
  · exact h other g hg

/-- Conditions that name no random function, at any depth, are steady. -/
theorem Condition.isSteady_of_isDeterministic {table : FunctionTable} (h : table.DrawsByName)
    {cs : List Condition} (hd : isDeterministic cs = true) : ∀ c ∈ cs, c.IsSteady table := by
  intro c hc common name parameters hn f hf
  have quiet := List.all_eq_true.mp (List.all_eq_true.mp hd c hc) _ hn
  exact h name f hf (by simpa [drawsAtTop, BuiltIn.isRandomName] using quiet)

end EntityRules
