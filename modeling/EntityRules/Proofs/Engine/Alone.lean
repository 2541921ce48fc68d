import EntityRules.Proofs.Engine.Tally
import EntityRules.Proofs.Number.Share

/-! Entries of a batch on their own. -/

namespace EntityRules

namespace BatchEntry

/-- An entry whose conditions, if it can be read, are steady. -/
def Steady (functions : FunctionTable) (entry : BatchEntry) : Prop :=
  ∀ s, entry.read? = .ok s → ∀ c ∈ s.conditions, c.IsSteady functions

/-- What an entry comes to when a new evaluator processes it. -/
def alone (functions : FunctionTable) (state : Decoded GameState) (entry : BatchEntry) :
    EntityResult :=
  (({ functions } : Evaluator).processEntry state entry).1

end BatchEntry

namespace Evaluator

open Condition (AllSteady toldOf)

/-- What an evaluator did before does not matter for an entry with steady conditions. -/
theorem processEntry_steady {ev : Evaluator} {entry : BatchEntry}
    (steady : entry.Steady ev.functions) (state : Decoded GameState) :
    (ev.processEntry state entry).1 = entry.alone ev.functions state := by
  unfold BatchEntry.alone processEntry
  cases h : entry.read? with
  | error why => rfl
  | ok s =>
    cases state with
    | refused why => rfl
    | ok state =>
      have all := Condition.allSteady_some (steady s h)
      exact (process_steady all ..).trans
        (@process_steady _ { functions := ev.functions } all ..).symm

/-- Entries with steady conditions come to what they come to alone. -/
theorem processAll_steady {entries : List BatchEntry} {ev : Evaluator}
    (steady : ∀ entry ∈ entries, entry.Steady ev.functions) (state : Decoded GameState) :
    (processAll state entries ev).1 = entries.map (BatchEntry.alone ev.functions state) := by
  induction entries generalizing ev with
  | nil => rfl
  | cons entry rest ih =>
    obtain ⟨first, others⟩ := List.forall_mem_cons.mp steady
    have same := functions_processEntry ev state entry
    rw [processAll_cons, List.map_cons, processEntry_steady first, ih (same ▸ others), same]

end Evaluator

namespace EntityResult

/-- A result whose counts agree with each other. -/
structure Adds (r : EntityResult) : Prop where
  sum : r.passed + r.failed = r.evaluated
  clean : r.success = true → r.failed = 0
  whole : r.evaluated ≠ 0 → r.failed = 0 → r.success = true

theorem adds_tally (id : String) (kind : EntityKind) (os : List Outcome) :
    (tally id kind os).Adds := by
  have clean : os.countP (!·.result) = 0 ↔ os.all (·.result) = true := by
    simp [List.countP_eq_zero]
  constructor
  · have split := List.length_eq_countP_add_countP (·.result) (l := os)
    simp only [Bool.decide_eq_false, Bool.not_eq_true] at split
    exact split.symm
  · exact clean.mpr
  · exact fun _ => clean.mp

theorem adds_process (ev : Evaluator) (id : String) (kind : Option EntityKind)
    (metadata : Members Json) (cs : List (Option Condition)) (state : Decoded GameState) :
    (ev.process id kind metadata cs state).1.Adds := by
  cases state with
  | ok state =>
    rw [Evaluator.process_ok]
    exact adds_tally ..
  | refused why => exact ⟨Nat.zero_add _, nofun, fun some none => absurd none some⟩

theorem adds_processEntry (ev : Evaluator) (state : Decoded GameState) (entry : BatchEntry) :
    (ev.processEntry state entry).1.Adds := by
  unfold Evaluator.processEntry
  split
  · exact ⟨rfl, nofun, fun some => absurd rfl some⟩
  · exact adds_process ..

theorem adds_processAll (state : Decoded GameState) (entries : List BatchEntry)
    (ev : Evaluator) : ∀ r ∈ (Evaluator.processAll state entries ev).1, r.Adds := by
  induction entries generalizing ev with
  | nil => exact nofun
  | cons entry rest ih =>
    rw [Evaluator.processAll_cons]
    exact List.forall_mem_cons.mpr ⟨adds_processEntry ev state entry, ih _⟩

end EntityResult

/-- All conditions were read and hold in a state that was read. -/
def Condition.AllHold (functions : FunctionTable) (id : String) (cs : List (Option Condition))
    (state : Decoded GameState) : Prop :=
  ∃ s, state = .ok s ∧
    ∀ c ∈ cs, ∃ d, c = some d ∧ d.Holds functions (Evaluator.givenContext id none [] s)

/-- What an availability tells about conditions. How sure it is lies between zero and one, and it is
one exactly if there are conditions and all of them hold. Doubles tell apart the shares of less than
`2 ^ 54` conditions, which is more than the memory of any machine can hold. -/
structure Availability.Tells (a : Availability) (functions : FunctionTable) (id : String)
    (cs : List (Option Condition)) (state : Decoded GameState) : Prop where
  least : 0 ≤ a.confidence
  most : a.confidence ≤ 1
  available : a.available = true ↔ Condition.AllHold functions id cs state
  sure : cs ≠ [] → Condition.AllHold functions id cs state → a.confidence = 1
  certain : cs.length < 2 ^ 54 → a.confidence = 1 →
    cs ≠ [] ∧ Condition.AllHold functions id cs state

namespace RuleEngine

open Condition (AllSteady toldOf)

/-- Conditions all pass exactly if they were read and hold. -/
theorem all_toldOf_iff {functions : FunctionTable} {ctx : EvaluationContext}
    {cs : List (Option Condition)} (steady : AllSteady functions cs) :
    (cs.map (toldOf functions ctx)).all (·.result) = true ↔
      ∀ c ∈ cs, ∃ d, c = some d ∧ d.Holds functions ctx := by
  rw [List.all_map, List.all_eq_true]
  refine forall₂_congr fun c hc => ?_
  cases c with
  | none => exact iff_of_false nofun nofun
  | some c =>
    rw [Function.comp_apply, Condition.result_toldOf (steady c hc)]
    exact ⟨fun h => ⟨c, rfl, h⟩, fun ⟨d, same, h⟩ => Option.some.inj same ▸ h⟩

/-- How sure an availability is of conditions, by their counts. It is one, too, when so few of very
many failed that their share is not seen in a double. -/
theorem confidence_spec {r : EntityResult} (h : r.Adds) :
    0 ≤ (availabilityOf r).confidence ∧ (availabilityOf r).confidence ≤ 1 ∧
      ((availabilityOf r).confidence = 1 ↔
        r.evaluated ≠ 0 ∧ 2 ^ 54 * r.failed ≤ r.evaluated) := by
  have sum := h.sum
  unfold availabilityOf
  dsimp only
  split
  · next none => exact ⟨by decide, by decide, iff_of_false (by decide) fun some => some.1 none⟩
  · next some =>
    obtain ⟨least, most, one⟩ :=
      @Binary64.share_spec r.passed r.evaluated (Nat.pos_of_ne_zero some) (by omega)
    have missing : r.evaluated - r.passed = r.failed := by omega
    rw [missing] at one
    exact ⟨least, most, one.trans (and_iff_right some).symm⟩

/-- The result for an entity is a success exactly if all of its conditions hold. -/
theorem success_process_iff {ev : Evaluator} {cs : List (Option Condition)}
    (steady : AllSteady ev.functions cs) (id : String) (state : Decoded GameState) :
    (ev.process id none [] cs state).1.success = true ↔
      Condition.AllHold ev.functions id cs state := by
  cases state with
  | refused why => exact iff_of_false Bool.false_ne_true (fun ⟨_, read, _⟩ => by cases read)
  | ok s =>
    rw [Evaluator.process_steady steady]
    refine (all_toldOf_iff steady).trans ⟨fun hold => ⟨s, rfl, hold⟩, ?_⟩
    rintro ⟨_, read, hold⟩
    cases read
    exact hold

theorem availabilityOf_tells {ev : Evaluator} {cs : List (Option Condition)}
    (steady : AllSteady ev.functions cs) (id : String) (state : Decoded GameState) :
    (availabilityOf (ev.process id none [] cs state).1).Tells ev.functions id cs state := by
  have adds := EntityResult.adds_process ev id none [] cs state
  have counted := ev.evaluated_process id none [] cs state
  have holds := success_process_iff steady id state
  obtain ⟨least, most, one⟩ := confidence_spec adds
  refine ⟨least, most, holds, fun filled hold => one.mpr ?_, fun few full => ?_⟩
  · rw [adds.clean (holds.mpr hold), counted]
    exact ⟨fun none => filled (List.length_eq_zero_iff.mp none), Nat.zero_le _⟩
  · obtain ⟨some, small⟩ := one.mp full
    rw [counted] at some small
    exact ⟨fun none => some (none ▸ rfl),
      holds.mp (adds.whole (counted ▸ some) (by omega))⟩

end RuleEngine

end EntityRules
