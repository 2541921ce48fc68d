import EntityRules.Proofs.Engine.Alone
import EntityRules.Proofs.Engine.Gates
import EntityRules.Proofs.Engine.RawEntry
import Mathlib.Logic.Relation

/-! Workers that process the entries of a batch at the same time. -/

namespace EntityRules

open Condition (AllSteady toldOf)

/-- The place of an entry in a batch: the entry as long as no worker has taken it up, the conditions
that are left to a worker with the result so far, or the result. -/
inductive Slot where
  | waiting (entry : BatchEntry)
  | running (ctx : EvaluationContext) (left : List (Option Condition)) (result : EntityResult)
  | finished (result : EntityResult)

/-- The entries of a batch in their order, and the evaluator that all workers use. -/
structure Workshop where
  slots : List Slot
  evaluator : Evaluator

namespace Slot

def isRunning : Slot → Bool
  | running .. => true
  | _ => false

/-- A worker takes up an entry. One that cannot be evaluated has its result at once. -/
def begin (state : Decoded GameState) (entry : BatchEntry) : Slot :=
  match entry.read? with
  | .error why => finished (.withoutEntry entry.nominalId why)
  | .ok s =>
    let kind := s.kind.getD (.infer s.entityId)
    match state with
    | .refused why => finished (.withoutState s.entityId kind s.conditions.length why)
    | .ok state =>
      running (Evaluator.givenContext s.entityId s.kind [] state) (s.conditions.map some)
        (.start s.entityId kind)

end Slot

namespace Workshop

/-- A batch of which no entry has been taken up. -/
def ofEntries (entries : List BatchEntry) (evaluator : Evaluator) : Workshop :=
  { slots := entries.map .waiting, evaluator }

/-- One of some workers goes on: it takes up an entry, evaluates one more condition, or hands in a
result. -/
inductive Step (workers : Nat) (state : Decoded GameState) : Workshop → Workshop → Prop
  | start {before after : List Slot} {entry : BatchEntry} {ev : Evaluator}
      (room : (before ++ after).countP (·.isRunning) < workers) :
      Step workers state ⟨before ++ .waiting entry :: after, ev⟩
        ⟨before ++ .begin state entry :: after, ev⟩
  | evaluate {before after : List Slot} {ctx : EvaluationContext} {c : Option Condition}
      {rest : List (Option Condition)} {r : EntityResult} {ev : Evaluator} :
      Step workers state ⟨before ++ .running ctx (c :: rest) r :: after, ev⟩
        ⟨before ++ .running ctx rest (r.add (ev.evaluateRead ctx c).1) :: after,
          (ev.evaluateRead ctx c).2⟩
  | finish {before after : List Slot} {ctx : EvaluationContext} {r : EntityResult}
      {ev : Evaluator} :
      Step workers state ⟨before ++ .running ctx [] r :: after, ev⟩
        ⟨before ++ .finished r :: after, ev⟩

/-- However some workers take turns. -/
abbrev Reaches (workers : Nat) (state : Decoded GameState) : Workshop → Workshop → Prop :=
  Relation.ReflTransGen (Step workers state)

end Workshop

namespace Slot

variable {functions : FunctionTable} {state : Decoded GameState}

/-- The result that a slot is to have in the end. -/
def promised (functions : FunctionTable) (state : Decoded GameState) : Slot → EntityResult
  | waiting entry => entry.alone functions state
  | running ctx left r => (left.map (toldOf functions ctx)).foldl .add r
  | finished r => r

/-- What is left to be evaluated for a slot is steady. -/
def Steady (functions : FunctionTable) : Slot → Prop
  | waiting entry => entry.Steady functions
  | running _ left _ => AllSteady functions left
  | finished _ => True

/-- Taking up an entry promises what it comes to alone. -/
theorem promised_begin {entry : BatchEntry} (steady : entry.Steady functions) :
    (begin state entry).Steady functions ∧
      (begin state entry).promised functions state = entry.alone functions state := by
  unfold begin BatchEntry.alone Evaluator.processEntry
  cases h : entry.read? with
  | error why => exact ⟨trivial, rfl⟩
  | ok s =>
    have all := Condition.allSteady_some (steady s h)
    cases state with
    | refused why => exact ⟨trivial, by simp [promised, Evaluator.process]⟩
    | ok state =>
      refine ⟨all, ?_⟩
      calc promised functions (.ok state) (running _ _ _)
          = .tally s.entityId (s.kind.getD (.infer s.entityId)) _ :=
            EntityResult.foldl_add_start ..
        _ = _ := (@Evaluator.process_steady _ { functions } all ..).symm

/-- What is added for a condition is only what is told of it. -/
theorem add_told (r : EntityResult) (o : Outcome) : r.add o.told = r.add o := rfl

theorem promised_evaluate {ctx : EvaluationContext} {c : Option Condition}
    {rest : List (Option Condition)} {ev : Evaluator} (steady : AllSteady ev.functions (c :: rest))
    (r : EntityResult) :
    (running ctx rest (r.add (ev.evaluateRead ctx c).1)).promised ev.functions state =
      (running ctx (c :: rest) r).promised ev.functions state := by
  rw [promised, promised, List.map_cons, List.foldl_cons, ← Evaluator.told_evaluateRead steady,
    add_told]

end Slot

namespace Workshop

variable {workers : Nat} {state : Decoded GameState} {functions : FunctionTable}
  {results : List EntityResult} {w w' : Workshop}

/-- The slots of a workshop promise some results. -/
structure Promises (functions : FunctionTable) (state : Decoded GameState)
    (results : List EntityResult) (w : Workshop) : Prop where
  table : w.evaluator.functions = functions
  steady : ∀ slot ∈ w.slots, slot.Steady functions
  results : w.slots.map (Slot.promised functions state) = results

theorem promises_ofEntries {entries : List BatchEntry} {ev : Evaluator}
    (steady : ∀ entry ∈ entries, entry.Steady ev.functions) :
    (ofEntries entries ev).Promises ev.functions state
      (entries.map (BatchEntry.alone ev.functions state)) := by
  refine ⟨rfl, ?_, ?_⟩
  · rintro _ hs
    obtain ⟨entry, he, rfl⟩ := List.mem_map.mp hs
    exact steady entry he
  · rw [ofEntries, List.map_map]
    rfl

/-- A slot may give way to one that promises the same. -/
theorem Promises.replace {before after : List Slot} {slot slot' : Slot} {ev ev' : Evaluator}
    (h : Promises functions state results ⟨before ++ slot :: after, ev⟩)
    (same : ev'.functions = ev.functions)
    (kept : slot.Steady functions → slot'.Steady functions ∧
      slot'.promised functions state = slot.promised functions state) :
    Promises functions state results ⟨before ++ slot' :: after, ev'⟩ := by
  obtain ⟨table, steady, promised⟩ := h
  obtain ⟨front, behind⟩ := List.forall_mem_append.mp steady
  obtain ⟨here, back⟩ := List.forall_mem_cons.mp behind
  obtain ⟨settled, equal⟩ := kept here
  refine ⟨same.trans table,
    List.forall_mem_append.mpr ⟨front, List.forall_mem_cons.mpr ⟨settled, back⟩⟩, ?_⟩
  rw [← promised]
  simp only [List.map_append, List.map_cons, equal]

/-- Whatever step a worker takes, the slots promise the same results. -/
theorem Promises.step (h : w.Promises functions state results) (s : Step workers state w w') :
    w'.Promises functions state results := by
  cases s with
  | start room => exact h.replace rfl Slot.promised_begin
  | evaluate =>
    obtain rfl := h.table
    refine h.replace (Evaluator.functions_evaluateRead ..) fun steady => ⟨?_, ?_⟩
    · exact fun d hd => steady d (List.mem_cons_of_mem _ hd)
    · exact Slot.promised_evaluate steady _
  | finish => exact h.replace rfl fun _ => ⟨trivial, rfl⟩

theorem Promises.run (h : w.Promises functions state results)
    (r : Reaches workers state w w') : w'.Promises functions state results := by
  induction r with
  | refl => exact h
  | tail _ s ih => exact ih.step s

end Workshop

/-- The steps that are left for a slot. -/
def Slot.work (state : Decoded GameState) : Slot → Nat
  | waiting entry =>
    match begin state entry with
    | running _ left _ => left.length + 2
    | _ => 1
  | running _ left _ => left.length + 1
  | finished _ => 0

theorem Slot.work_begin (state : Decoded GameState) (entry : BatchEntry) :
    (begin state entry).work state + 1 = (waiting entry).work state := by
  rw [work.eq_def state (waiting entry)]
  dsimp only
  cases h : begin state entry with
  | waiting _ =>
    unfold begin at h
    split at h
    · cases h
    · split at h <;> cases h
  | running => rfl
  | finished => rfl

namespace Workshop

variable {workers : Nat} {state : Decoded GameState} {w w' : Workshop}

/-- The steps that are left for a workshop. -/
def work (state : Decoded GameState) (w : Workshop) : Nat := (w.slots.map (Slot.work state)).sum

theorem work_replace {before after : List Slot} {slot slot' : Slot} {ev ev' : Evaluator}
    (h : slot'.work state + 1 = slot.work state) :
    work state ⟨before ++ slot' :: after, ev'⟩ + 1 = work state ⟨before ++ slot :: after, ev⟩ := by
  simp only [work, List.map_append, List.map_cons, List.sum_append, List.sum_cons]
  omega

/-- Every step leaves one step less. -/
theorem work_step (s : Step workers state w w') : w'.work state + 1 = w.work state := by
  cases s with
  | start => exact work_replace (Slot.work_begin ..)
  | evaluate => exact work_replace rfl
  | finish => exact work_replace rfl

/-- As long as there is a worker and an entry without its result, some worker can go on. -/
theorem exists_step (some : 0 < workers) {slot : Slot} (mem : slot ∈ w.slots)
    (unfinished : ∀ r, slot ≠ .finished r) : ∃ w', Step workers state w w' := by
  obtain ⟨slots, ev⟩ := w
  by_cases idle : slots.countP (·.isRunning) = 0
  · obtain ⟨before, after, rfl⟩ := List.append_of_mem mem
    cases slot with
    | waiting entry =>
      refine ⟨_, .start ?_⟩
      simp only [List.countP_append, List.countP_cons] at idle ⊢
      omega
    | running => simp [Slot.isRunning] at idle
    | finished r => exact absurd rfl (unfinished r)
  · obtain ⟨busy, hb, running⟩ := List.countP_pos_iff.mp (Nat.pos_of_ne_zero idle)
    obtain ⟨before, after, rfl⟩ := List.append_of_mem hb
    cases busy with
    | waiting => cases running
    | running ctx left r =>
      cases left with
      | nil => exact ⟨_, .finish⟩
      | cons c rest => exact ⟨_, .evaluate⟩
    | finished => cases running

/-- When no worker can go on, every slot has the result it promised. -/
theorem Promises.finished {functions : FunctionTable} {results : List EntityResult}
    (h : w.Promises functions state results) (some : 0 < workers)
    (stuck : ¬ ∃ w', Step workers state w w') : w.slots = results.map .finished := by
  rw [← h.results, List.map_map]
  refine (List.map_id w.slots).symm.trans (List.map_congr_left fun slot mem => ?_)
  by_contra other
  refine stuck (exists_step some mem fun r same => other ?_)
  rw [same]
  rfl

end Workshop

/-- Entries that name no random function, at any depth, are steady. -/
theorem BatchEntry.steady_of_isDeterministic {functions : FunctionTable}
    (h : functions.DrawsByName) {entry : BatchEntry}
    (quiet : entry.read?.toOption.all (fun s => Condition.isDeterministic s.conditions) = true) :
    entry.Steady functions := by
  intro s read
  rw [read] at quiet
  exact Condition.isSteady_of_isDeterministic h quiet

namespace RuleEngine

open Workshop (ofEntries Reaches Step)

/-- Processing a batch maps its entries to what they come to alone, however many workers there are
and however they take turns, and its counts agree. -/
structure MapsEntries (e : RuleEngine) (entries : List BatchEntry) (state : Decoded GameState) :
    Prop where
  results : (e.processBatch entries state).1.results =
    entries.map (BatchEntry.alone e.evaluator.functions state)
  single : ∀ other : RuleEngine, other.evaluator.functions = e.evaluator.functions →
    ∀ entry ∈ entries, (other.processBatch [entry] state).1.results =
      [entry.alone e.evaluator.functions state]
  permuted : ∀ others : List BatchEntry, others.Perm entries →
    (others.zip (e.processBatch others state).1.results).Perm
      (entries.zip (e.processBatch entries state).1.results)
  /-- Another entry in the place of one changes no other result. -/
  apart : ∀ before entry after other, entries = before ++ entry :: after →
    other.Steady e.evaluator.functions → ∀ i, i ≠ before.length →
      (e.processBatch (before ++ other :: after) state).1.results[i]? =
        (e.processBatch entries state).1.results[i]?
  /-- Workers that take turns do not come to a halt before all results are there. -/
  workers : ∀ n, 0 < n → ∀ w, Reaches n state (ofEntries entries e.evaluator) w →
    (∃ w', Step n state w w') ∨
      w.slots = (e.processBatch entries state).1.results.map .finished
  /-- No schedule goes on forever. -/
  ends : ∀ n w w', Step n state w w' → w'.work state + 1 = w.work state
  total : (e.processBatch entries state).1.total = entries.length
  outcomes : (e.processBatch entries state).1.successful +
    (e.processBatch entries state).1.failed = (e.processBatch entries state).1.total
  successful : (e.processBatch entries state).1.successful =
    ((e.processBatch entries state).1.results.filter (·.success)).length
  errors : (e.processBatch entries state).1.errors =
    (e.processBatch entries state).1.results.flatMap fun r =>
      r.errors.map fun error => "Entity " ++ r.id ++ ": " ++ error.message
  adds : ∀ r ∈ (e.processBatch entries state).1.results, r.Adds
  /-- For the conditions of an entry that was read. -/
  available : ∀ entry ∈ entries, ∀ s, entry.read? = .ok s →
    (availabilityOf (e.evaluator.process s.entityId none [] (s.conditions.map some) state).1).Tells
      e.evaluator.functions s.entityId (s.conditions.map some) state
  /-- For conditions that are given by documents. -/
  availability : ∀ id items document,
    AllSteady e.evaluator.functions (readConditions items) →
      (e.availability id items document).1.Tells e.evaluator.functions id (readConditions items)
        (GameState.decode document)

variable {e : RuleEngine} {entries : List BatchEntry}

theorem results_processBatch (steady : ∀ entry ∈ entries, entry.Steady e.evaluator.functions)
    (state : Decoded GameState) : (e.processBatch entries state).1.results =
      entries.map (BatchEntry.alone e.evaluator.functions state) :=
  Evaluator.processAll_steady steady state

namespace Sample

open QueryRules.Sample (engine)

/-- A set that was read, a pair, a document and two entries that cannot be read. -/
def mixed : List BatchEntry :=
  [.read { entityId := "quest_a", conditions := lamp, kind := none },
    .pair [.str "npc_b", .arr [level]], .pair [.str "npc_c"], .document (.obj (entry [level])),
    .document (.int 5)]

end Sample

end RuleEngine

end EntityRules
