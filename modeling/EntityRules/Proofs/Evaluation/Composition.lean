import EntityRules.Proofs.Evaluation.Record

/-! Evaluation is compositional: what comes of a condition is put together from its children. -/

namespace EntityRules.Condition

variable {table : FunctionTable} {ctx : EvaluationContext} {s : RandomSource}

/-- What comes of conditions evaluated one after the other, each with the source that it found. -/
def evaluateEach (table : FunctionTable) (ctx : EvaluationContext) :
    List Condition → RandomSource → List (RandomSource × Outcome)
  | [], _ => []
  | c :: rest, s =>
    (s, evaluate table ctx c s) :: evaluateEach table ctx rest (evaluate table ctx c s).source

/-- The parts up to the first whose result decides, that one counted in. -/
def through (decisive : Bool) (parts : List (RandomSource × Outcome)) :
    List (RandomSource × Outcome) :=
  parts.take (parts.findIdx (·.2.result == decisive) + 1)

/-- The children of a condition that are evaluated, with what came of each. -/
def evaluated (table : FunctionTable) (ctx : EvaluationContext) :
    Condition → RandomSource → List (RandomSource × Outcome)
  | .compound _ operator children, s =>
    match (Vocabulary.ofName? operator : Option Connective) with
    | some .and => through false (evaluateEach table ctx children s)
    | some .or => through true (evaluateEach table ctx children s)
    | some .not => if children.length = 1 then evaluateEach table ctx children s else []
    | none => []
  | _, _ => []

/-- An outcome that is its parts put together and adds nothing but its result. -/
structure Joined (s : RandomSource) (parts : List (RandomSource × Outcome)) (o : Outcome) :
    Prop where
  errors : o.errors = parts.flatMap (·.2.errors)
  warnings : o.warnings = parts.flatMap (·.2.warnings)
  calls : o.calls = parts.flatMap (·.2.calls)
  drawn : s.drawn o.source = parts.flatMap fun p => p.1.drawn p.2.source
  source : o.source = (parts.getLast?.map (·.2.source)).getD s

/-- What a condition itself warns of: its type, operator, function or category is unknown. -/
inductive Warns (table : FunctionTable) : Condition → Warning → Prop
  | type (common : Common) (type : Json) : Warns table (.unknown common type) (.unknownType type)
  | operator {common : Common} {path operator : String} {value : Json}
      (h : (Vocabulary.ofName? operator : Option Comparison) = none) :
      Warns table (.simple common path operator value) (.unknownOperator operator)
  | connective {common : Common} {operator : String} {children : List Condition}
      (h : (Vocabulary.ofName? operator : Option Connective) = none) :
      Warns table (.compound common operator children) (.unknownConnective operator)
  | function {common : Common} {name : String} {parameters : Members Json}
      (h : Members.get? table name = none) :
      Warns table (.function common name parameters) (.unknownFunction name)
  | category {common : Common} {category : String} {data : Members Json}
      (h : (Vocabulary.ofName? category : Option ContextType) = none) :
      Warns table (.contextual common category data) (.unknownCategory category)

/-- What a condition itself raises, its children aside. -/
inductive Raises (table : FunctionTable) (ctx : EvaluationContext) (s : RandomSource) :
    Condition → Trouble → Prop
  | path {common : Common} {path operator : String} {value : Json} {op : Comparison} {t : Trouble}
      (known : Vocabulary.ofName? operator = some op)
      (h : ctx.state.view.resolve path = .error t) :
      Raises table ctx s (.simple common path operator value) t
  | comparison {common : Common} {path operator : String} {value : Json} {op : Comparison}
      {actual : Value} {t : Trouble} (known : Vocabulary.ofName? operator = some op)
      (found : ctx.state.view.resolve path = .ok actual)
      (h : actual.compare op (.ofJson value) = .error t) :
      Raises table ctx s (.simple common path operator value) t
  | negation {common : Common} {operator : String} {children : List Condition}
      (known : Vocabulary.ofName? operator = some Connective.not) (h : children.length ≠ 1) :
      Raises table ctx s (.compound common operator children) (.negationOfMany children.length)
  | function {common : Common} {name : String} {parameters : Members Json}
      {f : ConditionFunction} {t : Trouble} (known : Members.get? table name = some f)
      (h : (f.body parameters ctx s).1 = .error t) :
      Raises table ctx s (.function common name parameters) t
  | category {common : Common} {category : String} {data : Members Json} {type : ContextType}
      {t : Trouble} (known : Vocabulary.ofName? category = some type)
      (h : ContextType.check type data ctx = .error t) :
      Raises table ctx s (.contextual common category data) t

/-- The call of a registered function that a condition itself makes. -/
def ownCalls (table : FunctionTable) (ctx : EvaluationContext) : Condition → List FunctionCall
  | .function _ name parameters =>
    match Members.get? table name with
    | some f => if f.isBuiltIn then [] else [⟨name, parameters, ctx.entityId⟩]
    | none => []
  | _ => []

/-- What the function that a condition itself calls leaves of the source. -/
def ownSource (table : FunctionTable) (ctx : EvaluationContext) (s : RandomSource) :
    Condition → RandomSource
  | .function _ name parameters =>
    match Members.get? table name with
    | some f => (f.body parameters ctx s).2
    | none => s
  | _ => s

@[simp] theorem through_nil (decisive : Bool) : through decisive [] = [] := rfl

theorem through_cons (decisive : Bool) (p : RandomSource × Outcome)
    (parts : List (RandomSource × Outcome)) :
    through decisive (p :: parts) =
      if p.2.result = decisive then [p] else p :: through decisive parts := by
  unfold through
  rw [List.findIdx_cons]
  by_cases h : p.2.result = decisive
  · simp [h]
  · simp only [beq_false_of_ne h, cond_false, List.take_succ_cons, h, if_false]

/-- Evaluates conditions up to the first whose result is `decisive`: the common form of
`evaluateAll` and `evaluateAny`. -/
def evaluateUntil (decisive : Bool) (table : FunctionTable) (ctx : EvaluationContext) :
    List Condition → RandomSource → Outcome
  | [], s => .quiet (!decisive) s
  | c :: rest, s =>
    let first := evaluate table ctx c s
    if first.result = decisive then first
    else first.after (evaluateUntil decisive table ctx rest first.source)

theorem evaluateAll_eq (cs : List Condition) (s : RandomSource) :
    evaluateAll table ctx cs s = evaluateUntil false table ctx cs s := by
  induction cs generalizing s with
  | nil => rfl
  | cons c rest ih =>
    rw [evaluateAll, evaluateUntil, ih]
    cases (evaluate table ctx c s).result <;> simp

theorem evaluateAny_eq (cs : List Condition) (s : RandomSource) :
    evaluateAny table ctx cs s = evaluateUntil true table ctx cs s := by
  induction cs generalizing s with
  | nil => rfl
  | cons c rest ih =>
    rw [evaluateAny, evaluateUntil, ih]

theorem draws_evaluateUntil (h : table.KeepsRecord) (decisive : Bool) (cs : List Condition)
    (s : RandomSource) : s.draws <+: (evaluateUntil decisive table ctx cs s).source.draws := by
  cases decisive with
  | false => exact evaluateAll_eq cs s ▸ draws_evaluateAll h ctx cs s
  | true => exact evaluateAny_eq cs s ▸ draws_evaluateAny h ctx cs s

/-- The result is decisive iff that of some child is. -/
theorem result_evaluateUntil (decisive : Bool) (cs : List Condition) (s : RandomSource) :
    (evaluateUntil decisive table ctx cs s).result = decisive ↔
      ∃ p ∈ evaluateEach table ctx cs s, p.2.result = decisive := by
  induction cs generalizing s with
  | nil => simp [evaluateUntil, evaluateEach, Outcome.quiet]
  | cons c rest ih =>
    rw [evaluateUntil, evaluateEach]
    by_cases h : (evaluate table ctx c s).result = decisive
    · simp [h]
    · simp only [h, if_false, Outcome.after, List.exists_mem_cons_iff, false_or]
      exact ih _

theorem joined_nil (b : Bool) (s : RandomSource) : Joined s [] (.quiet b s) :=
  ⟨rfl, rfl, rfl, s.drawn_self, rfl⟩

theorem joined_singleton (s : RandomSource) (o : Outcome) : Joined s [(s, o)] o := by
  constructor <;> simp

/-- What comes first stands in front of what was joined behind it. -/
theorem Joined.cons {first next : Outcome} {parts : List (RandomSource × Outcome)}
    (h : Joined first.source parts next) (h₁ : s.draws <+: first.source.draws)
    (h₂ : first.source.draws <+: next.source.draws) :
    Joined s ((s, first) :: parts) (first.after next) := by
  constructor
  · rw [List.flatMap_cons, ← h.errors]; rfl
  · rw [List.flatMap_cons, ← h.warnings]; rfl
  · rw [List.flatMap_cons, ← h.calls]; rfl
  · rw [List.flatMap_cons, ← h.drawn]
    exact RandomSource.drawn_append h₁ h₂
  · rw [List.getLast?_cons]
    change next.source = _
    rw [h.source]
    cases parts.getLast? <;> rfl

theorem joined_evaluateUntil (h : table.KeepsRecord) (decisive : Bool) (cs : List Condition)
    (s : RandomSource) :
    Joined s (through decisive (evaluateEach table ctx cs s))
      (evaluateUntil decisive table ctx cs s) := by
  induction cs generalizing s with
  | nil => exact joined_nil _ s
  | cons c rest ih =>
    rw [evaluateEach, through_cons, evaluateUntil]
    by_cases hc : (evaluate table ctx c s).result = decisive
    · simpa only [hc, if_true] using joined_singleton s (evaluate table ctx c s)
    · simp only [hc, if_false]
      exact (ih _).cons (draws_evaluate h ctx c s) (draws_evaluateUntil h decisive rest _)

theorem evaluate_and (common : Common) (children : List Condition) (s : RandomSource) :
    evaluate table ctx (.compound common "and" children) s =
      if children.isEmpty then .quiet false s else evaluateUntil false table ctx children s := by
  rw [evaluate, ← evaluateAll_eq]
  rfl

theorem evaluate_or (common : Common) (children : List Condition) (s : RandomSource) :
    evaluate table ctx (.compound common "or" children) s =
      evaluateUntil true table ctx children s := by
  rw [evaluate, ← evaluateAny_eq]
  rfl

theorem evaluate_not (common : Common) (children : List Condition) (s : RandomSource) :
    evaluate table ctx (.compound common "not" children) s =
      evaluateNegation table ctx children s := by
  rw [evaluate]
  rfl

theorem evaluateNegation_of_ne_one {children : List Condition} (h : children.length ≠ 1)
    (s : RandomSource) :
    evaluateNegation table ctx children s = .failed (.negationOfMany children.length) s := by
  match children with
  | [] => rfl
  | [_] => simp at h
  | _ :: _ :: rest => rfl

theorem joined_and (h : table.KeepsRecord) (common : Common) (children : List Condition)
    (s : RandomSource) :
    Joined s (through false (evaluateEach table ctx children s))
      (evaluate table ctx (.compound common "and" children) s) := by
  rw [evaluate_and]
  split
  · next hc =>
    obtain rfl := List.isEmpty_iff.mp hc
    exact joined_nil false s
  · exact joined_evaluateUntil h false children s

theorem joined_or (h : table.KeepsRecord) (common : Common) (children : List Condition)
    (s : RandomSource) :
    Joined s (through true (evaluateEach table ctx children s))
      (evaluate table ctx (.compound common "or" children) s) := by
  rw [evaluate_or]
  exact joined_evaluateUntil h true children s

theorem evaluate_of_warns {c : Condition} {w : Warning} (h : Warns table c w)
    (s : RandomSource) : evaluate table ctx c s = .warned w s := by
  cases h with
  | type => rw [evaluate]
  | operator h => rw [evaluate, evaluateSimple, h]
  | connective h => rw [evaluate, h]
  | function h => rw [evaluate, evaluateFunction, h]
  | category h => rw [evaluate, evaluateContextual, h]

/-- A condition that raises has evaluated no children: only a negation raises beside conditions
without children, and it does so before it looks at them. -/
theorem evaluated_of_raises {c : Condition} {t : Trouble} (h : Raises table ctx s c t) :
    evaluated table ctx c s = [] := by
  cases h with
  | negation known h => simp only [evaluated, known, h, if_false]
  | _ => rfl

theorem evaluate_of_raises {c : Condition} {t : Trouble} (h : Raises table ctx s c t) :
    evaluate table ctx c s =
      { result := false, errors := [t], calls := ownCalls table ctx c
        source := ownSource table ctx s c } := by
  cases h with
  | path known h =>
    rw [evaluate, evaluateSimple, known]
    simp only [h]
    rfl
  | comparison known found h =>
    rw [evaluate, evaluateSimple, known]
    simp only [found, Except.bind, h]
    rfl
  | negation known h =>
    rw [evaluate, known]
    exact evaluateNegation_of_ne_one h s
  | function known h =>
    rw [evaluate, evaluateFunction, known]
    simp only [h, ownCalls, ownSource, known]
    rfl
  | category known h =>
    rw [evaluate, evaluateContextual, known]
    simp only [h]
    rfl

theorem quiet_of_check {check : Except Trouble Bool} (h : ∀ t, check ≠ .error t)
    (s : RandomSource) : ∃ b, Outcome.ofCheck check s = .quiet b s := by
  cases check with
  | ok b => exact ⟨b, rfl⟩
  | error t => exact absurd rfl (h t)

/-- A condition without children that neither warns nor raises leaves its call and its draws. -/
theorem evaluate_leaf {c : Condition} (leaf : c.tag ≠ .compound) (hw : ∀ w, ¬ Warns table c w)
    (hr : ∀ t, ¬ Raises table ctx s c t) :
    ∃ b, evaluate table ctx c s =
      { result := b, calls := ownCalls table ctx c, source := ownSource table ctx s c } := by
  cases c with
  | simple common path operator value =>
    rw [evaluate, evaluateSimple]
    split
    · next unknown => exact absurd (.operator unknown) (hw _)
    · next op known =>
      apply quiet_of_check
      intro t ht
      cases found : ctx.state.view.resolve path with
      | error t' => exact hr t' (.path known found)
      | ok actual =>
        rw [found] at ht
        exact hr t (.comparison known found ht)
  | compound common operator children => exact absurd rfl leaf
  | function common name parameters =>
    cases known : Members.get? table name with
    | none => exact absurd (.function known) (hw _)
    | some f =>
      obtain ⟨b, hb⟩ := quiet_of_check (fun t ht => hr t (.function known ht))
        (f.body parameters ctx s).2
      refine ⟨b, ?_⟩
      simp only [evaluate, evaluateFunction, ownCalls, ownSource, known, hb]
      rfl
  | contextual common category data =>
    rw [evaluate, evaluateContextual]
    split
    · next unknown => exact absurd (.category unknown) (hw _)
    · next type known => exact quiet_of_check (fun t ht => hr t (.category known ht)) s
  | unknown common type => exact absurd (.type common type) (hw _)

/-- A built-in function raises what it raises, and its call is not recorded. -/
theorem evaluate_builtIn (common : Common) {name : String} {b : BuiltIn}
    (known : Members.get? table name = some ⟨b.body, true⟩) (ps : Members Json)
    (s : RandomSource) :
    evaluate table ctx (.function common name ps) s =
      .ofCheck (b.body ps ctx s).1 (b.body ps ctx s).2 := by
  rcases hb : b.body ps ctx s with ⟨check, t⟩
  simp only [evaluate, evaluateFunction, known, hb]
  cases check <;> rfl

section

variable {common : Common} {name : String} {ps : Members Json} {t : Trouble}

theorem evaluate_probability_refused
    (known : Members.get? table name = some ⟨BuiltIn.probability.body, true⟩)
    (refused : BuiltIn.chanceOf ps = .error t) :
    evaluate table ctx (.function common name ps) s = .failed t s := by
  rw [evaluate_builtIn common known]
  simp only [BuiltIn.body, BuiltIn.rollProbability, refused]
  rfl

theorem drawn_probability (known : Members.get? table name = some ⟨BuiltIn.probability.body, true⟩)
    (quiet : (evaluate table ctx (.function common name ps) s).errors = []) :
    s.drawn (evaluate table ctx (.function common name ps) s).source = [.fraction] := by
  cases hc : BuiltIn.chanceOf ps with
  | error t =>
    rw [evaluate_probability_refused known hc] at quiet
    cases quiet
  | ok x =>
    rw [evaluate_builtIn common known, source_ofCheck]
    apply RandomSource.drawn_of_eq
    exact (BuiltIn.draws_rollProbability ps s).trans (by rw [hc])

theorem evaluate_dice_refused
    (known : Members.get? table name = some ⟨BuiltIn.diceRoll.body, true⟩)
    (refused : BuiltIn.rollOf ps = .error t) :
    evaluate table ctx (.function common name ps) s = .failed t s := by
  rw [evaluate_builtIn common known]
  simp only [BuiltIn.body, BuiltIn.rollDice, refused]
  rfl

theorem drawn_dice (known : Members.get? table name = some ⟨BuiltIn.diceRoll.body, true⟩)
    (quiet : (evaluate table ctx (.function common name ps) s).errors = []) :
    ∃ (dice : Nat) (sides : Int), BuiltIn.wholeParameter ps "dice" = .ok (dice : Int) ∧
      BuiltIn.wholeParameter ps "sides" = .ok sides ∧ 1 ≤ sides ∧
      s.drawn (evaluate table ctx (.function common name ps) s).source =
        List.replicate dice (.whole 1 sides) := by
  cases hr : BuiltIn.rollOf ps with
  | error t =>
    rw [evaluate_dice_refused known hr] at quiet
    cases quiet
  | ok roll =>
    obtain ⟨hd, hs, range⟩ := BuiltIn.rollOf_eq_ok hr
    refine ⟨roll.dice, roll.sides, hd, hs, range, ?_⟩
    rw [evaluate_builtIn common known, source_ofCheck]
    apply RandomSource.drawn_of_eq
    exact (BuiltIn.draws_rollDice ps s).trans (by rw [hr])

end

/-- What evaluation does at each node, for every source that it finds there. -/
structure Compositional (table : FunctionTable) (ctx : EvaluationContext) : Prop where
  and_iff : ∀ common children s,
    (evaluate table ctx (.compound common "and" children) s).result = true ↔
      children ≠ [] ∧ ∀ p ∈ evaluateEach table ctx children s, p.2.result = true
  or_iff : ∀ common children s,
    (evaluate table ctx (.compound common "or" children) s).result = true ↔
      ∃ p ∈ evaluateEach table ctx children s, p.2.result = true
  /-- All that comes of a negated condition is kept but its result. -/
  not_eq : ∀ common c s,
    evaluate table ctx (.compound common "not" [c]) s = (evaluate table ctx c s).negated
  /-- Nothing comes of the children behind the first false one. -/
  and_joined : ∀ common children s,
    Joined s (through false (evaluateEach table ctx children s))
      (evaluate table ctx (.compound common "and" children) s)
  or_joined : ∀ common children s,
    Joined s (through true (evaluateEach table ctx children s))
      (evaluate table ctx (.compound common "or" children) s)
  warned : ∀ c w s, Warns table c w → evaluate table ctx c s = .warned w s
  /-- An error makes its own condition false and leaves the rest as it is. -/
  raised : ∀ c t s, Raises table ctx s c t →
    let parts := evaluated table ctx c s
    evaluate table ctx c s =
      { result := false
        errors := parts.flatMap (·.2.errors) ++ [t]
        warnings := parts.flatMap (·.2.warnings)
        calls := parts.flatMap (·.2.calls) ++ ownCalls table ctx c
        source := ownSource table ctx s c }
  /-- Nothing else is warned of or raised. -/
  leaf : ∀ c s, c.tag ≠ .compound → (∀ w, ¬ Warns table c w) → (∀ t, ¬ Raises table ctx s c t) →
    ∃ b, evaluate table ctx c s =
      { result := b, calls := ownCalls table ctx c, source := ownSource table ctx s c }
  probability : ∀ common name ps s,
    Members.get? table name = some ⟨BuiltIn.probability.body, true⟩ →
    let o := evaluate table ctx (.function common name ps) s
    (o.errors = [] → s.drawn o.source = [.fraction]) ∧
      ∀ t, BuiltIn.chanceOf ps = .error t → o = .failed t s
  dice : ∀ common name ps s,
    Members.get? table name = some ⟨BuiltIn.diceRoll.body, true⟩ →
    let o := evaluate table ctx (.function common name ps) s
    (o.errors = [] → ∃ (dice : Nat) (sides : Int),
      BuiltIn.wholeParameter ps "dice" = .ok (dice : Int) ∧
      BuiltIn.wholeParameter ps "sides" = .ok sides ∧ 1 ≤ sides ∧
      s.drawn o.source = List.replicate dice (.whole 1 sides)) ∧
      ∀ t, BuiltIn.rollOf ps = .error t → o = .failed t s

theorem and_result (common : Common) (children : List Condition) (s : RandomSource) :
    (evaluate table ctx (.compound common "and" children) s).result = true ↔
      children ≠ [] ∧ ∀ p ∈ evaluateEach table ctx children s, p.2.result = true := by
  rw [evaluate_and]
  split
  · next hc =>
    obtain rfl := List.isEmpty_iff.mp hc
    simp [Outcome.quiet]
  · next hc =>
    have filled : children ≠ [] := fun h => hc (List.isEmpty_iff.mpr h)
    have decided : ¬ (evaluateUntil false table ctx children s).result = false ↔ _ :=
      not_congr (result_evaluateUntil false children s)
    simpa [filled] using decided

namespace Sample

def noted : Common := ⟨none, none, none, []⟩

/-- The built-in functions and one that draws a number and then fails. -/
def functions : FunctionTable :=
  Members.put BuiltIn.table "omen"
    ⟨fun _ _ s => (.error (.functionFailed "no omen"), s.fraction.2), false⟩

def source : RandomSource := { supply := .scripted [0.75, 0.25] [] }

/-- The omen fails, the chance behind it is taken, and the last condition is not evaluated. -/
def tree : Condition :=
  .compound noted "or"
    [.compound noted "and" [.function noted "omen" [], .unknown noted .null],
      .function noted "probability" [("chance", .float 0.5)],
      .function noted "omen" []]

end Sample

/-- One failure is noted, and one number was drawn before it and one behind it. -/
example :
    let o := evaluate Sample.functions { state := {} } Sample.tree Sample.source
    o.errors.map Trouble.message = ["no omen"] ∧ o.source.draws = [.fraction, .fraction] := by
  decide +kernel

end EntityRules.Condition
