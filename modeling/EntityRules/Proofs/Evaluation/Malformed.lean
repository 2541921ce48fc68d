import EntityRules.Proofs.Condition.Replaced
import EntityRules.Proofs.Evaluation.Composition

/-! A document that cannot be read, inside a composition. -/

namespace EntityRules.Condition

variable {table : FunctionTable} {ctx : EvaluationContext} {s : RandomSource}

theorem malformed_notMem_evaluateUntil {cs : List Condition} {decisive : Bool}
    (each : ∀ c ∈ cs, ∀ s, Warning.malformed ∉ (evaluate table ctx c s).warnings) :
    Warning.malformed ∉ (evaluateUntil decisive table ctx cs s).warnings := by
  induction cs generalizing s with
  | nil => exact List.not_mem_nil
  | cons c rest ih =>
    obtain ⟨first, others⟩ := List.forall_mem_cons.mp each
    rw [evaluateUntil]
    split
    · exact first s
    · rw [Outcome.after, List.mem_append, not_or]
      exact ⟨first s, ih others⟩

theorem malformed_notMem_ofCheck (check : Except Trouble Bool) (s : RandomSource) :
    Warning.malformed ∉ (Outcome.ofCheck check s).warnings := by
  cases check <;> exact List.not_mem_nil

/-- Only reading a document warns that it cannot be read, evaluating a condition never does. -/
theorem malformed_notMem_evaluate (c : Condition) (s : RandomSource) :
    Warning.malformed ∉ (evaluate table ctx c s).warnings := by
  induction c using Condition.inductionOn generalizing s with
  | simple common path operator value =>
    rw [evaluate, evaluateSimple]
    split
    · simp [Outcome.warned]
    · exact malformed_notMem_ofCheck _ s
  | compound common operator children ih =>
    rw [evaluate]
    split
    · simp [Outcome.warned]
    · match children, ih with
      | [], _ => exact List.not_mem_nil
      | [c], ih => exact ih c List.mem_cons_self s
      | _ :: _ :: _, _ => exact List.not_mem_nil
    · split
      · exact List.not_mem_nil
      · rw [evaluateAll_eq]
        exact malformed_notMem_evaluateUntil ih
    · rw [evaluateAny_eq]
      exact malformed_notMem_evaluateUntil ih
  | function common name parameters =>
    rw [evaluate, evaluateFunction]
    split
    · simp [Outcome.warned]
    · exact malformed_notMem_ofCheck _ _
  | contextual common category data =>
    rw [evaluate, evaluateContextual]
    split
    · simp [Outcome.warned]
    · exact malformed_notMem_ofCheck _ s
  | unknown common type => simp [evaluate, Outcome.warned]

theorem evaluateDocument_of_read {document : Json} {c : Condition} (h : decode document = .ok c) :
    evaluateDocument table ctx document s = evaluate table ctx c s := by
  rw [evaluateDocument, h]

theorem evaluateDocument_of_unread {document : Json} (h : ∀ c, decode document ≠ .ok c) :
    evaluateDocument table ctx document s = .warned .malformed s := by
  rw [evaluateDocument]
  split
  · next c read => exact absurd read (h c)
  · rfl

namespace Sample

/-- A comparison that holds of every player. -/
def level : Json :=
  .obj [("type", .str "simple"), ("field", .str "player.level"),
    ("operator", .str "greater_than"), ("value", .int 0)]

/-- An alternative with a comparison that holds. -/
def either (other : Json) : Json :=
  .obj [("type", .str "compound"), ("operator", .str "or"), ("conditions", .arr [other, level])]

/-- A comparison of something that is no path. -/
def pathless : Json := .obj [("type", .str "simple"), ("field", .int 5)]

def mystery : Json := .obj [("type", .str "mystery")]

end Sample

theorem Sample.pathless_unreadable (c : Condition) : decode Sample.pathless ≠ .ok c := by
  intro read
  cases read

end EntityRules.Condition
