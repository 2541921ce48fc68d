import EntityRules.Document.Loading
import EntityRules.Proofs.State.Context

/-! What becomes of documents that are loaded. -/

namespace EntityRules

variable {yaml : Document.YamlReader} {file : String} {text : Except FileTrouble String}
  {ms : Members Json}

/-- Loading ends the program instead of being reported. -/
def LoadFailure.Escapes {α : Type} (r : Except LoadFailure α) : Prop :=
  ∃ why, r = .error (.crash why)

open LoadFailure (Escapes)

theorem LoadFailure.escapes_bind {α β : Type} {r : Except LoadFailure α}
    {f : α → Except LoadFailure β} :
    Escapes (r >>= f) ↔ Escapes r ∨ ∃ a, r = .ok a ∧ Escapes (f a) := by
  cases r <;> simp [Escapes, bind, Except.bind]

/-- Of a file that is read, what matters is the mapping that it holds. -/
theorem Document.escapes_or_iff {cause : Members Json → Prop}
    (read : Document.read yaml file text = .ok ms) :
    (Escapes (Document.read yaml file text) ∨ ∃ ms, Document.read yaml file text = .ok ms ∧ cause ms) ↔
      cause ms := by
  rw [read]
  constructor
  · rintro (⟨why, ends⟩ | ⟨_, ⟨⟩, h⟩)
    · cases ends
    · exact h
  · exact fun h => .inr ⟨ms, rfl, h⟩

/-- Loading a rule document ends the program if its file cannot be read, or if the strength of a
relationship that it lists is no number and no text, or too large a number. -/
theorem RuleDocument.escapes_load_iff {now : Moment} :
    Escapes (load yaml now file text) ↔ Escapes (Document.read yaml file text) ∨
      ∃ ms, Document.read yaml file text = .ok ms ∧
        ∃ j ∈ listed ms, (Relationship.refusal j).isSome := by
  have refused : ∀ ms, (decode now (.obj ms)).outright.isSome ↔
      ∃ j ∈ listed ms, (Relationship.refusal j).isSome := by
    intro ms
    rw [outright_decode, List.findSome?_isSome_iff]
  unfold load
  simp only [LoadFailure.escapes_bind, ← refused]
  refine or_congr_right (exists_congr fun ms => and_congr_right fun _ => ?_)
  cases decode now (.obj ms) with
  | ok d => exact iff_of_false nofun nofun
  | refused why =>
    cases why with
    | faults fs => exact iff_of_false nofun nofun
    | shapeOfNumber => exact iff_of_true ⟨_, rfl⟩ rfl
    | sizeOfNumber => exact iff_of_true ⟨_, rfl⟩ rfl

/-- A refusal with faults is reported. -/
theorem GameState.not_escapes_failure {α : Type} {why : Refusal} (h : ∃ fs, why = .faults fs) :
    ¬ Escapes (.error (failure file why) : Except LoadFailure α) := by
  obtain ⟨fs, rfl⟩ := h
  exact nofun

/-- Loading a game state ends the program if its file cannot be read, or if it holds a session
context with an item that is no pair. -/
theorem GameState.escapes_load_iff :
    Escapes (load yaml file text) ↔ Escapes (Document.read yaml file text) ∨
      ∃ ms, Document.read yaml file text = .ok ms ∧ contextNames.any (Members.has ms) = true ∧
        ofContext (.obj ms) = .error .notAPair := by
  unfold load
  simp only [LoadFailure.escapes_bind]
  refine or_congr_right (exists_congr fun ms => and_congr_right fun _ => ?_)
  split
  · next context =>
    have fails := Context.failsFor_ofContext (.obj ms)
    cases made : ofContext (.obj ms) with
    | ok s => exact iff_of_false nofun nofun
    | error why =>
      cases why with
      | shape => exact iff_of_false nofun nofun
      | notAPair => exact iff_of_true ⟨_, rfl⟩ ⟨context, rfl⟩
      | invalid name why =>
        exact iff_of_false (not_escapes_failure (fails.faults name why made)) nofun
  · next plain =>
    refine iff_of_false ?_ fun ⟨context, _⟩ => plain context
    cases made : decode (.obj ms) with
    | ok s => exact nofun
    | refused why =>
      exact not_escapes_failure (Decoded.faults_of_outright (outright_decode _) made)

end EntityRules
