import EntityRules.Evaluation.Tree
import EntityRules.Proofs.Except
import EntityRules.Proofs.Members

/-! What evaluating a condition asks of the random source. -/

namespace EntityRules

namespace RandomSource

variable {s t u : RandomSource}

/-- What was asked of a source between two of its states. -/
def drawn (before after : RandomSource) : List Draw := after.draws.drop before.draws.length

theorem drawn_of_eq {ds : List Draw} (h : t.draws = s.draws ++ ds) : s.drawn t = ds := by
  rw [drawn, h, List.drop_left]

@[simp] theorem drawn_self (s : RandomSource) : s.drawn s = [] := by simp [drawn]

/-- Requests of two parts of an evaluation follow each other. -/
theorem drawn_append (h₁ : s.draws <+: t.draws) (h₂ : t.draws <+: u.draws) :
    s.drawn u = s.drawn t ++ t.drawn u := by
  obtain ⟨d₁, h₁⟩ := h₁
  obtain ⟨d₂, h₂⟩ := h₂
  rw [drawn_of_eq h₁.symm, drawn_of_eq h₂.symm]
  apply drawn_of_eq
  rw [← h₂, ← h₁, List.append_assoc]

theorem draws_fraction (s : RandomSource) : s.fraction.2.draws = s.draws ++ [.fraction] := by
  unfold fraction
  split <;> rfl

theorem draws_whole (s : RandomSource) (low high : Int) :
    (s.whole low high).2.draws = s.draws ++ [.whole low high] := by
  unfold whole
  split <;> rfl

theorem draws_dice (sides : Int) (count : Nat) (s : RandomSource) :
    (s.dice sides count).2.draws = s.draws ++ List.replicate count (.whole 1 sides) := by
  induction count generalizing s with
  | zero => simp [dice]
  | succ n ih =>
    simp only [dice, ih, draws_whole, List.replicate_succ]
    rw [List.append_assoc, List.singleton_append]

end RandomSource

/-- Functions ask the random source for numbers and do nothing else to it, so what was asked before
stays in the record. -/
def FunctionTable.KeepsRecord (table : FunctionTable) : Prop :=
  ∀ name f, Members.get? table name = some f →
    ∀ ps ctx s, s.draws <+: (f.body ps ctx s).2.draws

namespace BuiltIn

theorem draws_rollProbability (ps : Members Json) (s : RandomSource) :
    (rollProbability ps s).2.draws =
      s.draws ++ match chanceOf ps with
        | .ok _ => [.fraction]
        | .error _ => [] := by
  unfold rollProbability
  split
  · simp [*]
  · simp [*, RandomSource.draws_fraction]

theorem draws_rollDice (ps : Members Json) (s : RandomSource) :
    (rollDice ps s).2.draws =
      s.draws ++ match rollOf ps with
        | .ok roll => List.replicate roll.dice (.whole 1 roll.sides)
        | .error _ => [] := by
  unfold rollDice
  split
  · simp [*]
  · simp [*, RandomSource.draws_dice]

/-- The whole number that a parameter of a roll has to be. -/
def wholeParameter (ps : Members Json) (name : String) : Except Trouble Int :=
  Parameters.requireNumber ps "dice_roll" name >>= Parameters.wholeOf

/-- Parameters that are accepted name their dice and sides, and both are in range. -/
theorem rollOf_eq_ok {ps : Members Json} {roll : Roll} (h : rollOf ps = .ok roll) :
    wholeParameter ps "dice" = .ok (roll.dice : Int) ∧
      wholeParameter ps "sides" = .ok roll.sides ∧ 1 ≤ roll.sides := by
  simp only [rollOf, bind_eq_ok] at h
  obtain ⟨x, hx, dice, hd, y, hy, sides, hs, target, -, op, -, h⟩ := h
  split at h
  · cases h
  · next range =>
    cases h
    simp only [Bool.or_eq_true, decide_eq_true_eq, not_or, Int.not_lt] at range
    obtain ⟨hdice, hsides⟩ := range
    refine ⟨bind_eq_ok.mpr ⟨x, hx, ?_⟩, bind_eq_ok.mpr ⟨y, hy, hs⟩, hsides⟩
    rw [hd, Int.toNat_of_nonneg hdice]

theorem draws_body (f : BuiltIn) (ps : Members Json) (ctx : EvaluationContext)
    (s : RandomSource) : s.draws <+: (f.body ps ctx s).2.draws := by
  cases f with
  | probability => exact ⟨_, (draws_rollProbability ps s).symm⟩
  | diceRoll => exact ⟨_, (draws_rollDice ps s).symm⟩
  | _ => exact List.prefix_rfl

/-- Every entry of the table of built-in functions is one of them. -/
theorem of_get?_table {name : String} {f : ConditionFunction}
    (h : Members.get? table name = some f) :
    ∃ b : BuiltIn, name = Vocabulary.name b ∧ f = ⟨b.body, true⟩ := by
  obtain ⟨b, -, hb⟩ := List.mem_map.mp (Members.mem_of_get? h)
  obtain ⟨rfl, rfl⟩ := Prod.mk.inj hb
  exact ⟨b, rfl, rfl⟩

theorem table_keepsRecord : FunctionTable.KeepsRecord table := by
  intro name f hf ps ctx s
  obtain ⟨b, -, rfl⟩ := of_get?_table hf
  exact draws_body b ps ctx s

end BuiltIn

/-- A function that keeps the record may be put in the place of any other, or be a new one. -/
theorem FunctionTable.KeepsRecord.put {table : FunctionTable} (h : table.KeepsRecord)
    {f : ConditionFunction} (hf : ∀ ps ctx s, s.draws <+: (f.body ps ctx s).2.draws)
    (name : String) : FunctionTable.KeepsRecord (Members.put table name f) := by
  intro other g hg
  rw [Members.get?_put] at hg
  split at hg
  · obtain rfl : f = g := by simpa using hg
    exact hf
  · exact h other g hg

namespace Condition

variable {table : FunctionTable} {ctx : EvaluationContext}

@[simp] theorem source_ofCheck (check : Except Trouble Bool) (s : RandomSource) :
    (Outcome.ofCheck check s).source = s := by
  cases check <;> rfl

theorem source_evaluateSimple (ctx : EvaluationContext) (path operator : String) (value : Json)
    (s : RandomSource) : (evaluateSimple ctx path operator value s).source = s := by
  unfold evaluateSimple
  split
  · rfl
  · exact source_ofCheck _ s

theorem source_evaluateContextual (ctx : EvaluationContext) (category : String)
    (data : Members Json) (s : RandomSource) :
    (evaluateContextual ctx category data s).source = s := by
  unfold evaluateContextual
  split
  · rfl
  · exact source_ofCheck _ s

theorem draws_evaluateFunction (h : table.KeepsRecord) (ctx : EvaluationContext) (name : String)
    (parameters : Members Json) (s : RandomSource) :
    s.draws <+: (evaluateFunction table ctx name parameters s).source.draws := by
  unfold evaluateFunction
  split
  · exact List.prefix_rfl
  · next f hf =>
    simp only [source_ofCheck]
    exact h name f hf parameters ctx s

mutual

/-- Evaluating a condition keeps the record, whatever its functions draw. -/
theorem draws_evaluate (h : table.KeepsRecord) (ctx : EvaluationContext) :
    ∀ (c : Condition) (s : RandomSource), s.draws <+: (evaluate table ctx c s).source.draws
  | .simple _ path operator value, s => by
    have same := source_evaluateSimple ctx path operator value s
    rw [evaluate]
    exact ⟨[], by rw [same, List.append_nil]⟩
  | .compound _ operator children, s => by
    rw [evaluate]
    split
    · exact List.prefix_rfl
    · exact draws_evaluateNegation h ctx children s
    · split
      · exact List.prefix_rfl
      · exact draws_evaluateAll h ctx children s
    · exact draws_evaluateAny h ctx children s
  | .function _ name parameters, s => by
    rw [evaluate]
    exact draws_evaluateFunction h ctx name parameters s
  | .contextual _ category data, s => by
    have same := source_evaluateContextual ctx category data s
    rw [evaluate]
    exact ⟨[], by rw [same, List.append_nil]⟩
  | .unknown _ type, s => by
    rw [evaluate]
    exact List.prefix_rfl

theorem draws_evaluateNegation (h : table.KeepsRecord) (ctx : EvaluationContext) :
    ∀ (cs : List Condition) (s : RandomSource),
      s.draws <+: (evaluateNegation table ctx cs s).source.draws
  | [], _ => List.prefix_rfl
  | [c], s => draws_evaluate h ctx c s
  | _ :: _ :: _, _ => List.prefix_rfl

theorem draws_evaluateAll (h : table.KeepsRecord) (ctx : EvaluationContext) :
    ∀ (cs : List Condition) (s : RandomSource),
      s.draws <+: (evaluateAll table ctx cs s).source.draws
  | [], _ => List.prefix_rfl
  | c :: rest, s => by
    rw [evaluateAll]
    have first := draws_evaluate h ctx c s
    split
    · exact first.trans (draws_evaluateAll h ctx rest _)
    · exact first

theorem draws_evaluateAny (h : table.KeepsRecord) (ctx : EvaluationContext) :
    ∀ (cs : List Condition) (s : RandomSource),
      s.draws <+: (evaluateAny table ctx cs s).source.draws
  | [], _ => List.prefix_rfl
  | c :: rest, s => by
    rw [evaluateAny]
    have first := draws_evaluate h ctx c s
    split
    · exact first
    · exact first.trans (draws_evaluateAny h ctx rest _)

end

end Condition

end EntityRules
