import EntityRules.Condition

/-! Induction over conditions and the conditions in them. -/

namespace EntityRules.Condition

/-- What holds of a composition as soon as it holds of its children, and of every other condition,
holds of all. -/
@[elab_as_elim]
theorem inductionOn {motive : Condition → Prop} (c : Condition)
    (simple : ∀ common path operator value, motive (.simple common path operator value))
    (compound : ∀ common operator children, (∀ c ∈ children, motive c) →
      motive (.compound common operator children))
    (function : ∀ common name parameters, motive (.function common name parameters))
    (contextual : ∀ common category data, motive (.contextual common category data))
    (unknown : ∀ common type, motive (.unknown common type)) : motive c := by
  refine Condition.rec (motive_2 := fun cs => ∀ c ∈ cs, motive c) simple compound function
    contextual unknown ?_ ?_ c
  · intro c hc
    cases hc
  · intro first rest here behind c hc
    rcases List.mem_cons.mp hc with rfl | hc
    · exact here
    · exact behind c hc

end EntityRules.Condition
