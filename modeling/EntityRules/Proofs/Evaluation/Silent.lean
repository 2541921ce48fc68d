import EntityRules.Proofs.Condition
import EntityRules.Proofs.Evaluation.Steady

/-! Conditions that leave the random source alone. -/

namespace EntityRules

/-- A function that neither looks at the random source nor takes from it. -/
def ConditionFunction.IgnoresSource (f : ConditionFunction) : Prop :=
  ∀ ps ctx, ∃ answer, ∀ s, f.body ps ctx s = (answer, s)

/-- Functions of which each ignores the random source, unless it comes with the engine and stands
under its own name. -/
def FunctionTable.IgnoresSource (table : FunctionTable) : Prop :=
  ∀ name f, Members.get? table name = some f →
    f.IgnoresSource ∨ ∃ b : BuiltIn, name = Vocabulary.name b ∧ f = ⟨b.body, true⟩

/-- What comes of something is the same for every random source, and each source is left as it
was. -/
def Outcome.Unmoved (come : RandomSource → Outcome) : Prop :=
  ∀ s t, come t = { come s with source := t }

namespace Outcome.Unmoved

variable {come next : RandomSource → Outcome}

theorem source (h : Unmoved come) (s : RandomSource) : (come s).source = s := by
  rw [h s s]

theorem result (h : Unmoved come) (s t : RandomSource) : (come t).result = (come s).result := by
  rw [h s t]

theorem quiet (b : Bool) : Unmoved (.quiet b) := fun _ _ => rfl

theorem failed (t : Trouble) : Unmoved (.failed t) := fun _ _ => rfl

theorem warned (w : Warning) : Unmoved (.warned w) := fun _ _ => rfl

theorem ofCheck (check : Except Trouble Bool) : Unmoved (.ofCheck check) := by
  cases check with
  | ok b => exact quiet b
  | error t => exact failed t

theorem negated (h : Unmoved come) : Unmoved fun s => (come s).negated := by
  intro s t
  dsimp only
  rw [h s t]
  rfl

/-- Of two that leave the source alone, the second one finds the source that the first one did. -/
theorem after (h : Unmoved come) (h' : Unmoved next) :
    Unmoved fun s => (come s).after (next (come s).source) := by
  intro s t
  dsimp only
  rw [h.source, h.source, h s t, h' s t]
  rfl

end Outcome.Unmoved

namespace Condition

open Outcome (Unmoved)

/-- What a condition comes to, and that it draws nothing, does not depend on the random source. -/
def IgnoresSource (table : FunctionTable) (ctx : EvaluationContext) (c : Condition) : Prop :=
  Unmoved (evaluate table ctx c)

variable {table : FunctionTable} {ctx : EvaluationContext}

theorem unmoved_evaluateFunction {name : String}
    (h : ∀ f, Members.get? table name = some f → f.IgnoresSource) (ctx : EvaluationContext)
    (parameters : Members Json) : Unmoved (evaluateFunction table ctx name parameters) := by
  unfold evaluateFunction
  cases hf : Members.get? table name with
  | none => exact .warned (.unknownFunction name)
  | some f =>
    obtain ⟨answer, ignores⟩ := h f hf parameters ctx
    intro s t
    simp only [ignores]
    rw [Unmoved.ofCheck answer s t]

theorem unmoved_until (decisive : Bool) {cs : List Condition}
    (h : ∀ c ∈ cs, IgnoresSource table ctx c) :
    Unmoved (evaluateUntil decisive table ctx cs) := by
  induction cs with
  | nil => exact .quiet _
  | cons c rest ih =>
    have first : Unmoved (evaluate table ctx c) := h c List.mem_cons_self
    have behind := first.after (ih fun d hd => h d (List.mem_cons_of_mem _ hd))
    intro s t
    rw [evaluateUntil, evaluateUntil]
    dsimp only
    rw [first.result s t]
    split
    · exact first s t
    · exact behind s t

theorem unmoved_negation {cs : List Condition} (h : ∀ c ∈ cs, IgnoresSource table ctx c) :
    Unmoved (evaluateNegation table ctx cs) := by
  match cs with
  | [c] =>
    have only : Unmoved (evaluate table ctx c) := h c List.mem_cons_self
    exact only.negated
  | [] => exact .failed _
  | _ :: _ :: _ => exact .failed _

/-- A condition that calls nothing but functions that ignore the source ignores it too. -/
theorem ignoresSource_evaluate (ctx : EvaluationContext) (c : Condition)
    (h : CallsOnly ConditionFunction.IgnoresSource table c) : IgnoresSource table ctx c := by
  induction c using inductionOn with
  | simple common path operator value =>
    intro s t
    rw [evaluate, evaluate, evaluateSimple, evaluateSimple]
    split
    · rfl
    · exact Unmoved.ofCheck _ s t
  | compound common operator children ih =>
    have each : ∀ c ∈ children, IgnoresSource table ctx c := fun c hc => ih c hc (h.child c hc)
    intro s t
    rw [evaluate, evaluate]
    split
    · rfl
    · exact unmoved_negation each s t
    · split
      · rfl
      · rw [evaluateAll_eq, evaluateAll_eq]
        exact unmoved_until false each s t
    · rw [evaluateAny_eq, evaluateAny_eq]
      exact unmoved_until true each s t
  | function common name parameters =>
    intro s t
    rw [evaluate, evaluate]
    exact unmoved_evaluateFunction (h common name parameters (by simp [nodes])) ctx parameters s t
  | contextual common category data =>
    intro s t
    rw [evaluate, evaluate, evaluateContextual, evaluateContextual]
    split
    · rfl
    · exact Unmoved.ofCheck _ s t
  | unknown common type =>
    intro s t
    rw [evaluate, evaluate]
    rfl

end Condition

/-- Of the functions that come with the engine, those that are not random ignore the source. -/
theorem BuiltIn.ignoresSource {b : BuiltIn} (h : b.isRandom = false) :
    ConditionFunction.IgnoresSource ⟨b.body, true⟩ := by
  intro ps ctx
  cases b with
  | probability => cases h
  | diceRoll => cases h
  | _ => exact ⟨_, fun _ => rfl⟩

theorem BuiltIn.table_ignoresSource : FunctionTable.IgnoresSource table :=
  fun _ _ hf => .inr (of_get?_table hf)

/-- Any name may be given to a function that ignores the source. -/
theorem FunctionTable.IgnoresSource.put {table : FunctionTable} (h : table.IgnoresSource)
    {f : ConditionFunction} (hf : f.IgnoresSource) (name : String) :
    FunctionTable.IgnoresSource (Members.put table name f) := by
  intro other g hg
  rw [Members.get?_put] at hg
  split at hg
  · obtain rfl : f = g := by simpa using hg
    exact .inl hf
  · exact h other g hg

/-- The walk over the nodes of conditions finds every function by which they could reach the
source. -/
theorem Condition.callsOnly_of_isDeterministic {table : FunctionTable} (h : table.IgnoresSource)
    {cs : List Condition} (hd : isDeterministic cs = true) :
    ∀ c ∈ cs, c.CallsOnly ConditionFunction.IgnoresSource table := by
  intro c hc common name parameters hn f hf
  rcases h name f hf with ignores | ⟨b, rfl, rfl⟩
  · exact ignores
  · have quiet := List.all_eq_true.mp (List.all_eq_true.mp hd c hc) _ hn
    replace quiet : (!BuiltIn.isRandomName (Vocabulary.name b)) = true := quiet
    apply BuiltIn.ignoresSource
    simpa [BuiltIn.isRandomName_name] using quiet

end EntityRules
