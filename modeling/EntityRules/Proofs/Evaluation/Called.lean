import EntityRules.Proofs.Condition
import EntityRules.Proofs.Evaluation.Composition
import EntityRules.Proofs.Evaluation.Steady

/-! The functions that conditions call. -/

namespace EntityRules.Condition

/-- A condition calls a function by its name, at any depth. -/
def Calls (c : Condition) (name : String) : Prop :=
  ∃ common parameters, .function common name parameters ∈ c.nodes

variable {table table' : FunctionTable} {ctx ctx' : EvaluationContext} {cs : List Condition}

theorem calls_function (common : Common) (name : String) (parameters : Members Json) :
    Calls (.function common name parameters) name :=
  ⟨common, parameters, by simp [nodes]⟩

/-- What a child calls, the condition calls. -/
theorem Calls.of_child {common : Common} {operator name : String} {c : Condition} (hc : c ∈ cs)
    (h : c.Calls name) : Calls (.compound common operator cs) name := by
  obtain ⟨common', parameters, hn⟩ := h
  refine ⟨common', parameters, ?_⟩
  rw [nodes, nodesOf_eq]
  exact List.mem_cons_of_mem _ (List.mem_flatMap.mpr ⟨c, hc, hn⟩)

theorem evaluateUntil_congr (decisive : Bool)
    (h : ∀ c ∈ cs, ∀ s, evaluate table' ctx' c s = evaluate table ctx c s) (s : RandomSource) :
    evaluateUntil decisive table' ctx' cs s = evaluateUntil decisive table ctx cs s := by
  induction cs generalizing s with
  | nil => rfl
  | cons c rest ih =>
    have behind := ih fun d hd => h d (List.mem_cons_of_mem _ hd)
    rw [evaluateUntil, evaluateUntil, h c List.mem_cons_self, behind]

theorem evaluateNegation_congr
    (h : ∀ c ∈ cs, ∀ s, evaluate table' ctx' c s = evaluate table ctx c s) (s : RandomSource) :
    evaluateNegation table' ctx' cs s = evaluateNegation table ctx cs s := by
  match cs with
  | [c] => exact congrArg Outcome.negated (h c List.mem_cons_self s)
  | [] => rfl
  | _ :: _ :: _ => rfl

/-- Functions under other names than those that a condition calls do not matter for it. -/
theorem evaluate_congr (c : Condition)
    (same : ∀ name, c.Calls name → Members.get? table' name = Members.get? table name)
    (s : RandomSource) : evaluate table' ctx c s = evaluate table ctx c s := by
  induction c using inductionOn generalizing s with
  | simple common path operator value => rw [evaluate, evaluate]
  | compound common operator children ih =>
    have each : ∀ c ∈ children, ∀ s, evaluate table' ctx c s = evaluate table ctx c s :=
      fun c hc s => ih c hc (fun name called => same name (called.of_child hc)) s
    rw [evaluate, evaluate]
    split
    · rfl
    · exact evaluateNegation_congr each s
    · split
      · rfl
      · rw [evaluateAll_eq, evaluateAll_eq]
        exact evaluateUntil_congr false each s
    · rw [evaluateAny_eq, evaluateAny_eq]
      exact evaluateUntil_congr true each s
  | function common name parameters =>
    rw [evaluate, evaluate, evaluateFunction, evaluateFunction,
      same name (calls_function common name parameters)]
  | contextual common category data => rw [evaluate, evaluate]
  | unknown common type => rw [evaluate, evaluate]

/-- A condition that calls the same functions is as steady. -/
theorem IsSteady.congr {c : Condition} (h : c.IsSteady table)
    (same : ∀ name, c.Calls name → Members.get? table' name = Members.get? table name) :
    c.IsSteady table' := by
  intro common name parameters hn f hf
  exact h common name parameters hn f (same name ⟨common, parameters, hn⟩ ▸ hf)

theorem holds_congr {c : Condition}
    (same : ∀ name, c.Calls name → Members.get? table' name = Members.get? table name) :
    Holds table' ctx c ↔ Holds table ctx c := by
  unfold Holds
  simp only [evaluate_congr c same]

end EntityRules.Condition
