import EntityRules.Proofs.Evaluation.Called

/-! Conditions that do not look at the kind of the entity they are evaluated for. -/

namespace EntityRules

/-- The context for an entity of another kind. -/
def EvaluationContext.ofKind (ctx : EvaluationContext) (kind : Option EntityKind) :
    EvaluationContext := { ctx with kind }

/-- A function that does not look at the kind of the entity. -/
def ConditionFunction.IgnoresKind (f : ConditionFunction) : Prop :=
  ∀ ps ctx kind s, f.body ps (ctx.ofKind kind) s = f.body ps ctx s

/-- Functions of which none looks at the kind of the entity. -/
def FunctionTable.IgnoresKind (table : FunctionTable) : Prop :=
  ∀ name f, Members.get? table name = some f → f.IgnoresKind

/-- Conditions that can call no function that looks at the kind do not look at it. -/
theorem FunctionTable.IgnoresKind.callsOnly {table : FunctionTable} (h : table.IgnoresKind)
    (c : Condition) : c.CallsOnly ConditionFunction.IgnoresKind table :=
  fun _ name _ _ f hf => h name f hf

/-- The functions that come with the engine do not look at the kind. -/
theorem BuiltIn.table_ignoresKind : FunctionTable.IgnoresKind table := by
  intro name f hf
  obtain ⟨b, -, rfl⟩ := of_get?_table hf
  intro ps ctx kind s
  cases b <;> rfl

namespace Condition

variable {table : FunctionTable} {ctx : EvaluationContext}

theorem evaluateFunction_ofKind {name : String}
    (h : ∀ f, Members.get? table name = some f → f.IgnoresKind) (parameters : Members Json)
    (kind : Option EntityKind) (s : RandomSource) :
    evaluateFunction table (ctx.ofKind kind) name parameters s =
      evaluateFunction table ctx name parameters s := by
  unfold evaluateFunction
  cases hf : Members.get? table name with
  | none => rfl
  | some f =>
    simp only [h f hf parameters ctx kind s]
    rfl

/-- A condition that calls only functions that do not look at the kind comes to the same for every
kind. -/
theorem evaluate_ofKind (c : Condition) (h : CallsOnly ConditionFunction.IgnoresKind table c)
    (kind : Option EntityKind) (s : RandomSource) :
    evaluate table (ctx.ofKind kind) c s = evaluate table ctx c s := by
  induction c using inductionOn generalizing s with
  | simple common path operator value =>
    rw [evaluate, evaluate]
    rfl
  | compound common operator children ih =>
    have each : ∀ c ∈ children, ∀ s,
        evaluate table (ctx.ofKind kind) c s = evaluate table ctx c s :=
      fun c hc s => ih c hc (h.child c hc) s
    rw [evaluate, evaluate]
    split
    · rfl
    · exact evaluateNegation_congr each s
    · split
      · rfl
      · rw [evaluateAll_eq, evaluateAll_eq]
        exact evaluateUntil_congr false each s
    · rw [evaluateAny_eq, evaluateAny_eq]
      exact evaluateUntil_congr true each s
  | function common name parameters =>
    rw [evaluate, evaluate]
    exact evaluateFunction_ofKind (h common name parameters (by simp [nodes])) parameters kind s
  | contextual common category data =>
    rw [evaluate, evaluate, evaluateContextual, evaluateContextual]
    split
    · rfl
    · next type _ =>
      cases type <;> rfl
  | unknown common type => rw [evaluate, evaluate]

theorem holds_ofKind {c : Condition} (h : CallsOnly ConditionFunction.IgnoresKind table c)
    (kind : Option EntityKind) : Holds table (ctx.ofKind kind) c ↔ Holds table ctx c := by
  unfold Holds
  simp only [evaluate_ofKind c h kind]

end Condition

end EntityRules
