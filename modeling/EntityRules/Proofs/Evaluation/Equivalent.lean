import EntityRules.Proofs.Evaluation.Composition

/-! Compositions that come to the same: negations move inwards, and nested ones dissolve. -/

namespace EntityRules.Condition

variable {table : FunctionTable} {ctx : EvaluationContext} {k : Common} {xs ns : List Condition}
  {decisive : Bool}

/-- A condition is the negation of another one. -/
def Negates (n c : Condition) : Prop := ∃ common, n = .compound common "not" [c]

theorem after_assoc (o p q : Outcome) : (o.after p).after q = o.after (p.after q) := by
  simp only [Outcome.after, List.append_assoc]

theorem negated_after (o p : Outcome) : (o.after p).negated = o.negated.after p.negated := rfl

theorem negated_negated (o : Outcome) : o.negated.negated = o := by
  simp only [Outcome.negated, Bool.not_not]

theorem evaluate_negation (c : Condition) (s : RandomSource) :
    evaluate table ctx (.compound k "not" [c]) s = (evaluate table ctx c s).negated := by
  rw [evaluate_not, evaluateNegation]

theorem Negates.evaluate {n c : Condition} (h : Negates n c) (s : RandomSource) :
    evaluate table ctx n s = (evaluate table ctx c s).negated := by
  obtain ⟨common, rfl⟩ := h
  exact evaluate_negation c s

/-- The negation of a condition decides when the condition decides the other way. -/
theorem evaluateUntil_negations (h : List.Forall₂ Negates ns xs) (decisive : Bool)
    (s : RandomSource) :
    evaluateUntil (!decisive) table ctx ns s = (evaluateUntil decisive table ctx xs s).negated := by
  induction h generalizing s with
  | nil => rfl
  | @cons n c ns xs first _ ih =>
    rw [evaluateUntil, evaluateUntil, first.evaluate s]
    by_cases decides : (evaluate table ctx c s).result = decisive
    · have decides' : (evaluate table ctx c s).negated.result = !decisive := congrArg not decides
      rw [if_pos decides, if_pos decides']
    · have goesOn : (evaluate table ctx c s).negated.result ≠ !decisive :=
        fun same => decides (Bool.not_inj same)
      rw [if_neg decides, if_neg goesOn, negated_after]
      exact congrArg _ (ih _)

/-- Conditions behind others are evaluated unless one of the others decides. -/
theorem evaluateUntil_append (decisive : Bool) (cs cs' : List Condition) (s : RandomSource) :
    evaluateUntil decisive table ctx (cs ++ cs') s =
      let first := evaluateUntil decisive table ctx cs s
      if first.result = decisive then first
      else first.after (evaluateUntil decisive table ctx cs' first.source) := by
  induction cs generalizing s with
  | nil =>
    have goesOn : (!decisive) ≠ decisive := by simp
    exact (if_neg goesOn).symm
  | cons c rest ih =>
    rw [List.cons_append, evaluateUntil, evaluateUntil]
    dsimp only
    by_cases decides : (evaluate table ctx c s).result = decisive
    · rw [if_pos decides, if_pos decides, if_pos decides]
    · rw [if_neg decides, if_neg decides, ih, apply_ite ((evaluate table ctx c s).after ·),
        after_assoc]
      rfl

/-- A condition that comes to the same as a row of them can stand for the row. -/
theorem evaluateUntil_row {c : Condition}
    (h : ∀ s, evaluate table ctx c s = evaluateUntil decisive table ctx xs s)
    (before behind : List Condition) (s : RandomSource) :
    evaluateUntil decisive table ctx (before ++ c :: behind) s =
      evaluateUntil decisive table ctx (before ++ xs ++ behind) s := by
  have here : ∀ s, evaluateUntil decisive table ctx (c :: behind) s =
      evaluateUntil decisive table ctx (xs ++ behind) s := by
    intro s
    rw [evaluateUntil, evaluateUntil_append, h]
  rw [List.append_assoc, evaluateUntil_append, evaluateUntil_append _ before]
  simp only [here]

theorem evaluate_all (some : xs ≠ []) (s : RandomSource) :
    evaluate table ctx (.compound k "and" xs) s = evaluateUntil false table ctx xs s := by
  rw [evaluate_and, if_neg (fun none => some (List.isEmpty_iff.mp none))]

namespace Sample

/-- An omen, which draws a number and fails, something unknown, and a chance. -/
def portents : List Condition :=
  [.function noted "omen" [], .unknown noted (.str "sign"),
    .function noted "probability" [("chance", .float 0.5)]]

def denials : List Condition := portents.map fun c => .compound noted "not" [c]

end Sample

end EntityRules.Condition
