import EntityRules.Proofs.CommandLine.Endings
import EntityRules.Proofs.Number.Difference
import EntityRules.Proofs.Number.Mean
import EntityRules.Proofs.Query.Score
import EntityRules.Proofs.Reread.Holding
import EntityRules.Settings.Configuration

/-! Ranges of settings. -/

namespace EntityRules

open Binary64

namespace RelevanceWeights

variable {w : RelevanceWeights Float} {x y total : Float}

/-- The weights that are numbers are not negative, and if all are, their sum is one but for the
tolerance. -/
structure Balanced (w : RelevanceWeights Float) : Prop where
  nonneg : ∀ x ∈ w.toList, x.isNaN = false → 0 ≤ x
  sum : (∀ x ∈ w.toList, x.isNaN = false) → (Scalar.sum w.toList - 1).abs ≤ tolerance

/-- A sum is let pass if it is near one, or no number. -/
theorem isOff_eq_false_iff :
    isOff total = false ↔ (total.isNaN = false → (total - 1).abs ≤ tolerance) := by
  have number : (total - 1).abs.isNaN = total.isNaN := (isNaN_abs _).trans (isNaN_sub (by decide))
  have passed : isOff total = false ↔ ¬ tolerance < (total - 1).abs := decide_eq_false_iff_not
  rw [passed, not_lt_iff, number]
  exact forall_prop_of_true (by decide)

/-- Only what a sum counts as matters. -/
theorem isOff_congr (hx : x.isFinite = true) (hy : y.isFinite = true) (same : count x = count y) :
    isOff x = isOff y := by
  have number (z : Float) (hz : z.isFinite = true) : (z - 1).abs.isNaN = false := by
    rw [isNaN_abs, isNaN_sub (by decide)]
    exact isNaN_of_isFinite hz
  apply decide_eq_decide.mpr
  change tolerance < (x - 1).abs ↔ tolerance < (y - 1).abs
  rw [lt_iff_count (by decide) (number x hx), lt_iff_count (by decide) (number y hy), count_abs,
    count_abs, count_sub hx (by decide), count_sub hy (by decide), same]

theorem check_eq_ok_iff : w.check = .ok w ↔ Balanced w := by
  have passed : w.check = .ok w ↔
      (∀ x ∈ w.toList, ¬ x < 0) ∧ isOff (Scalar.sum w.toList) = false := by
    unfold check
    split
    · next rejected =>
      refine iff_of_false nofun ?_
      rintro ⟨least, near⟩
      rw [near, Bool.or_false, List.any_eq_true] at rejected
      obtain ⟨x, hx, below⟩ := rejected
      exact least x hx (of_decide_eq_true below)
    · next fine =>
      refine iff_of_true rfl ?_
      rw [Bool.not_eq_true, Bool.or_eq_false_iff, List.any_eq_false] at fine
      exact ⟨fun x hx below => fine.1 x hx (decide_eq_true below), fine.2⟩
  rw [passed, isOff_eq_false_iff]
  have zero : (0 : Float).isNaN = false := by decide
  constructor
  · rintro ⟨least, near⟩
    have nonneg : ∀ x ∈ w.toList, x.isNaN = false → 0 ≤ x := fun x hx number =>
      not_lt_iff.mp (least x hx) number zero
    refine ⟨nonneg, fun numbers => near ?_⟩
    have start := (le_foldl_add (x := 0) (by decide) fun x hx => nonneg x hx (numbers x hx)).1
    exact (nonneg_iff.mp start).1
  · rintro ⟨nonneg, near⟩
    refine ⟨fun x hx => not_lt_iff.mpr fun number _ => nonneg x hx number, fun number => ?_⟩
    exact near (numbers_of_foldl_add number).2

/-- A sum that is near one is finite. -/
theorem isFinite_of_near (least : 0 ≤ total) (near : (total - 1).abs ≤ tolerance) :
    total.isFinite = true := by
  by_contra infinite
  rw [Bool.not_eq_true] at infinite
  have off := isOff_of_infinite (infinity_of_le (by decide) least infinite)
  rw [isOff_eq_false_iff.mpr fun _ => near] at off
  exact Bool.false_ne_true off

/-- A sum that starts with the first weight is let pass just as the one that starts with zero. -/
theorem Balanced.isOff_plain (h : Balanced w) :
    isOff (w.priority + w.tags + w.location + w.level + w.story) = false := by
  have plain : w.priority + w.tags + w.location + w.level + w.story =
      [w.tags, w.location, w.level, w.story].foldl (· + ·) w.priority := rfl
  have sum : Scalar.sum w.toList =
      [w.tags, w.location, w.level, w.story].foldl (· + ·) (0 + w.priority) := List.foldl_cons ..
  rw [plain, isOff_eq_false_iff]
  intro number
  have numbers : ∀ x ∈ w.toList, x.isNaN = false :=
    List.forall_mem_cons.mpr (numbers_of_foldl_add number)
  have nonneg : ∀ x ∈ w.toList, 0 ≤ x := fun x hx => h.nonneg x hx (numbers x hx)
  have near : isOff (Scalar.sum w.toList) = false :=
    isOff_eq_false_iff.mpr fun _ => h.sum numbers
  have finite : (Scalar.sum w.toList).isFinite = true :=
    isFinite_of_near (le_foldl_add (by decide) nonneg).1 (h.sum numbers)
  obtain ⟨first, others⟩ := List.forall_mem_cons.mp nonneg
  have start : count (0 + w.priority) = count w.priority := by
    rw [(count_add_of_nonneg (by decide) first).2, count_zero, Int.zero_add,
      rounded_count_of_nonneg first]
  have same := count_foldl_add_congr (add_nonneg (by decide) first) first start others
  rw [sum] at near finite
  have finite' := (isFinite_iff_count (isNaN_of_isFinite finite)).mp finite
  rw [same, ← isFinite_iff_count number] at finite'
  rw [isOff_congr finite finite' same, isOff_eq_false_iff] at near
  exact near number

end RelevanceWeights

namespace EngineSettings

variable {s : EngineSettings} {ms : Members Json}

/-- What reading settings brings into a range is there, as far as it is a number. -/
structure InRange (s : EngineSettings) : Prop where
  weights : s.weights.Balanced
  decay : s.graph.strengthDecay.isNaN = false → IsShare s.graph.strengthDecay
  related : s.relatedMinStrength.isNaN = false → IsShare s.relatedMinStrength
  workers : 1 ≤ s.workers
  window : 1 ≤ s.levelWindow

/-- The settings that can be read, from values by name or from environment variables. -/
inductive Accepted : EngineSettings → Prop where
  | values {ms : Members Json} {s : EngineSettings} : decode ms = .ok s → Accepted s
  | environment {vars : Members String} {s : EngineSettings} :
    Configuration.readSettings vars = .ok s → Accepted s

theorem confined_of_isNaN {x : Float} (h : x.isNaN = true) : confined x = x := by
  have least : Scalar.max x 0 = x := if_neg fun below =>
    absurd ((numbers_of_lt (of_decide_eq_true below)).1.symm.trans h) Bool.false_ne_true
  unfold confined
  rw [least]
  exact if_neg fun above =>
    absurd ((numbers_of_lt (of_decide_eq_true above)).2.symm.trans h) Bool.false_ne_true

theorem confined_isShare {x : Float} (h : (confined x).isNaN = false) : IsShare (confined x) := by
  have number : x.isNaN = false := by
    by_contra none
    rw [Bool.not_eq_false] at none
    rw [confined_of_isNaN none] at h
    exact Bool.false_ne_true (h.symm.trans none)
  obtain ⟨raised, least⟩ := @count_max x 0 number (by decide)
  have positive : 0 ≤ Scalar.max x 0 := by
    refine nonneg_iff.mpr ⟨raised, ?_⟩
    rw [least, count_zero]
    exact le_max_right _ _
  exact min_one_isShare positive

theorem Accepted.exists_decode (h : s.Accepted) : ∃ ms, decode ms = .ok s := by
  cases h with
  | values read => exact ⟨_, read⟩
  | environment read =>
    obtain ⟨ms, -, read⟩ := bind_eq_ok.mp read
    refine ⟨ms, ?_⟩
    split at read
    · next found =>
      cases read
      exact found
    · cases read

open Decode Decoded in
theorem check_weights {w : RelevanceWeights Float}
    (h : field ms ["relevance_weights"] RelevanceWeights.decode RelevanceWeights.standard = .ok w) :
    w.check = .ok w :=
  yields_field (P := fun w => w.check = .ok w) (fun _ _ => RelevanceWeights.check_of_decode)
    RelevanceWeights.standard_check w h

open Decode Decoded in
theorem inRange_decode (h : decode ms = .ok s) : s.InRange := by
  unfold decode decodeNamed at h
  obtain ⟨raw, given, rfl⟩ := fmap_eq_ok.mp h
  have weights : raw.weights.check = .ok raw.weights := by
    refine yields_seq (P := fun s : EngineSettings => s.weights.check = .ok s.weights) ?_ raw given
    repeat refine yields_seq ?_
    refine yields_map ?_
    intros
    apply check_weights
    assumption
  constructor
  · exact RelevanceWeights.check_eq_ok_iff.mp weights
  · exact confined_isShare
  · exact confined_isShare
  · exact le_max_right _ _
  · exact le_max_right _ _

end EngineSettings

namespace EngineSettings

variable {s : EngineSettings}

/-- The settings that are sizes. -/
def sizes (s : EngineSettings) : List Int :=
  [s.maxResults, s.cacheCapacity, s.graph.cacheCapacity, s.graph.indirectDepth, s.graph.pathHops,
    s.workers]

/-- What settings have to be for an engine, as far as they are numbers. -/
structure Sensible (s : EngineSettings) : Prop where
  scale : s.priorityScale.isNaN = false → 0 < s.priorityScale
  scores : s.recommendedScore.1.isNaN = false → s.recommendedScore.2.isNaN = false →
    s.recommendedScore.1 ≤ s.recommendedScore.2
  sizes : ∀ n ∈ s.sizes, 1 ≤ n

end EngineSettings

namespace SettingsReport

variable {s : EngineSettings} {t : Table}

/-- A check comes to an end, and it finds nothing just if something holds. -/
def Finds (issues : Except SettingsTrouble (List SettingIssue)) (holds : Prop) : Prop :=
  ∃ found, issues = .ok found ∧ (found = [] ↔ holds)

theorem finds_remark {check : Except SettingsTrouble Bool} {b : Bool} (h : check = .ok b)
    (setting message : String) : Finds (remark check setting message) (b = false) := by
  rw [h]
  refine ⟨_, rfl, ?_⟩
  cases b <;> simp

theorem isAtMost_zero (x : Float) : isAtMost (.float x) (.int 0) = .ok (decide (x ≤ 0)) := by
  have parts : isAtMost (.float x) (.int 0) = .ok (decide (Binary64.compareInt 0 x = some .gt) ||
      decide (Binary64.compareInt 0 x = some .eq)) := rfl
  rw [parts, ← Bool.decide_or]
  refine congrArg Except.ok (decide_eq_decide.mpr ?_)
  cases number : x.isNaN with
  | true =>
    rw [compareInt_of_isNaN number]
    refine iff_of_false (by simp) fun reached => ?_
    exact absurd ((isNaN_of_le reached).1.symm.trans number) Bool.false_ne_true
  | false =>
    have zero : (0 : Float).isNaN = false := by decide
    rw [compareInt_zero number, le_iff_count number zero, count_zero, Option.some_inj,
      Option.some_inj, compare_gt_iff_gt, compare_eq_iff_eq]
    omega

/-- The settings that are looked at, by name. -/
theorem value_members (s : EngineSettings) :
    value s.members "PRIORITY_SCALE" = .float s.priorityScale ∧
      value s.members "LEVEL_PROXIMITY_WINDOW" = .int s.levelWindow ∧
      value s.members "RECOMMENDATION_MIN_SCORE" = .float s.recommendedScore.1 ∧
      value s.members "RECOMMENDATION_MAX_SCORE" = .float s.recommendedScore.2 ∧
      value s.members "relevance_weights" = s.weights.encode ∧
      sizes.map (fun size => value s.members size.1) = s.sizes.map .int :=
  ⟨rfl, rfl, rfl, rfl, rfl, rfl⟩

theorem weightSum_encode (w : RelevanceWeights Float) : weightSum w.encode =
    .ok (w.priority + w.tags + w.location + w.level + w.story) := rfl

theorem weightIssues_members (h : s.weights.Balanced) : weightIssues s.members = .ok [] := by
  obtain ⟨-, -, -, -, weights, -⟩ := value_members s
  unfold weightIssues
  rw [weights, weightSum_encode]
  exact congrArg Except.ok (if_neg (by rw [h.isOff_plain]; exact Bool.false_ne_true))

theorem finds_scale (s : EngineSettings) : Finds (positiveIssues s.members "PRIORITY_SCALE")
    (s.priorityScale.isNaN = false → 0 < s.priorityScale) := by
  obtain ⟨scale, -⟩ := value_members s
  obtain ⟨found, answer, none⟩ := finds_remark (scale ▸ isAtMost_zero s.priorityScale)
    "PRIORITY_SCALE" _
  refine ⟨found, answer, none.trans ?_⟩
  rw [decide_eq_false_iff_not, not_le_iff (by decide)]
  cases s.priorityScale.isNaN <;> simp

theorem windowIssues_members (h : 1 ≤ s.levelWindow) :
    positiveIssues s.members "LEVEL_PROXIMITY_WINDOW" = .ok [] := by
  obtain ⟨-, window, -⟩ := value_members s
  have above : isAtMost (value s.members "LEVEL_PROXIMITY_WINDOW") (.int 0) = .ok false := by
    rw [window]
    have parts : isAtMost (.int s.levelWindow) (.int 0) =
        .ok (decide (s.levelWindow < 0) || decide (s.levelWindow = 0)) := rfl
    rw [parts, decide_eq_false (by omega), decide_eq_false (by omega)]
    rfl
  unfold positiveIssues
  rw [above]
  rfl

theorem finds_range (s : EngineSettings) : Finds (rangeIssues s.members)
    (s.recommendedScore.1.isNaN = false → s.recommendedScore.2.isNaN = false →
      s.recommendedScore.1 ≤ s.recommendedScore.2) := by
  obtain ⟨-, -, low, high, -⟩ := value_members s
  have above : isAbove (value s.members "RECOMMENDATION_MIN_SCORE")
      (value s.members "RECOMMENDATION_MAX_SCORE") =
        .ok (decide (s.recommendedScore.2 < s.recommendedScore.1)) := by
    rw [low, high]
    rfl
  obtain ⟨found, answer, none⟩ := finds_remark above "RECOMMENDATION_MIN_SCORE" _
  refine ⟨found, answer, none.trans ?_⟩
  rw [decide_eq_false_iff_not, not_lt_iff]
  exact forall_comm

/-- What each of the checks finds, taken together. -/
theorem finds_mapM {α : Type} {check : α → Except SettingsTrouble (List SettingIssue)}
    {holds : α → Prop} {l : List α} (h : ∀ a ∈ l, Finds (check a) (holds a)) :
    ∃ found, l.mapM check = .ok found ∧ (found.flatten = [] ↔ ∀ a ∈ l, holds a) := by
  induction l with
  | nil => exact ⟨[], rfl, by simp⟩
  | cons a rest ih =>
    obtain ⟨⟨first, answer, none⟩, h⟩ := List.forall_mem_cons.mp h
    obtain ⟨others, answers, nones⟩ := ih h
    refine ⟨first :: others, ?_, ?_⟩
    · rw [List.mapM_cons, answer, answers]
      rfl
    · rw [List.flatten_cons, List.append_eq_nil_iff, List.forall_mem_cons, none, nones]

/-- Every size is a whole number, and one is the least for each of them. -/
theorem sizes_members (s : EngineSettings) : ∀ size ∈ sizes,
    ∃ n ∈ s.sizes, value s.members size.1 = .int n ∧ size.2.1 = 1 := by
  obtain ⟨-, -, -, -, -, given⟩ := value_members s
  have one : ∀ size ∈ sizes, size.2.1 = 1 := by decide
  intro size hs
  have listed : value s.members size.1 ∈ s.sizes.map .int := given ▸ List.mem_map_of_mem hs
  obtain ⟨n, hn, same⟩ := List.mem_map.mp listed
  exact ⟨n, hn, same.symm, one size hs⟩

theorem finds_small (s : EngineSettings) : ∃ small, sizes.mapM (tooSmall s.members) = .ok small ∧
    (small.flatten = [] ↔ ∀ n ∈ s.sizes, 1 ≤ n) := by
  have each : ∀ size ∈ sizes, Finds (tooSmall s.members size)
      (∀ n, value s.members size.1 = .int n → 1 ≤ n) := by
    intro size hs
    obtain ⟨n, -, given, one⟩ := sizes_members s size hs
    have less : isLess (value s.members size.1) (.int size.2.1) = .ok (decide (n < 1)) := by
      rw [given, one]
      rfl
    obtain ⟨found, answer, none⟩ := finds_remark less size.1 _
    refine ⟨found, answer, none.trans ?_⟩
    rw [decide_eq_false_iff_not, given]
    simp
  obtain ⟨small, answer, none⟩ := finds_mapM each
  refine ⟨small, answer, none.trans ?_⟩
  obtain ⟨-, -, -, -, -, given⟩ := value_members s
  constructor
  · intro h n hn
    have listed : Json.int n ∈ sizes.map fun size => value s.members size.1 :=
      given ▸ List.mem_map_of_mem hn
    obtain ⟨size, hs, same⟩ := List.mem_map.mp listed
    exact h size hs n same
  · intro h size hs n same
    obtain ⟨m, hm, given, -⟩ := sizes_members s size hs
    cases given.symm.trans same
    exact h _ hm

/-- Settings that were read have a report, without an error just if they are sensible. -/
theorem ofTable_members (h : s.InRange) :
    ∃ r, ofTable s.members = .ok r ∧ (r.errors = [] ↔ s.Sensible) := by
  obtain ⟨scale, hscale, scaled⟩ := finds_scale s
  obtain ⟨range, hrange, ranged⟩ := finds_range s
  obtain ⟨small, hsmall, sized⟩ := finds_small s
  have errors : errorsIn s.members = .ok (scale ++ range ++ small.flatten) := by
    unfold errorsIn
    rw [weightIssues_members h.weights, hscale, windowIssues_members h.window, hrange, hsmall]
    simp [bind, Except.bind, pure, Except.pure]
  obtain ⟨large, hlarge⟩ : ∃ large, sizes.mapM (tooLarge s.members) = .ok large := by
    refine exists_mapM_eq_ok.mpr fun size hs => ?_
    obtain ⟨n, -, given, -⟩ := sizes_members s size hs
    have more : isLess (.int size.2.2) (value s.members size.1) = .ok (decide (size.2.2 < n)) := by
      rw [given]
      rfl
    obtain ⟨found, answer, -⟩ := finds_remark more size.1 _
    exact ⟨found, answer⟩
  refine ⟨{ errors := scale ++ range ++ small.flatten
            warnings := decayIssues s.members ++ large.flatten
            hints := cacheHints s.members }, ?_, ?_⟩
  · unfold ofTable
    rw [errors, hlarge]
    rfl
  · rw [List.append_eq_nil_iff, List.append_eq_nil_iff, scaled, ranged, sized]
    exact ⟨fun ⟨⟨scale, scores⟩, sizes⟩ => ⟨scale, scores, sizes⟩,
      fun h => ⟨⟨h.scale, h.scores⟩, h.sizes⟩⟩

end SettingsReport

namespace EngineSettings

variable {s : EngineSettings}

/-- An engine can be made under settings, from any document and of any parts. -/
structure MakesEngines (s : EngineSettings) : Prop where
  ofDocument : ∀ (d : RuleDocument) (ev : Evaluator) (now : Moment),
    ∃ e, d.engine s (.ofSettings s) ev now = .ok e
  ofParts : ∀ (ev : Evaluator) (catalog : EntityCatalog) (graph : RelationshipGraph Float)
    (clock : Int), ∃ e, RuleEngine.create s (.ofSettings s) ev catalog graph clock = .ok e

theorem Sensible.makesEngines (h : s.Sensible) : s.MakesEngines := by
  have room : s.HasRoom :=
    ⟨h.sizes s.cacheCapacity (by simp [EngineSettings.sizes]),
      h.sizes s.graph.cacheCapacity (by simp [EngineSettings.sizes])⟩
  constructor
  · intro d ev now
    rcases d.engine_settings s ev now with ⟨-, e, made, -⟩ | ⟨full, -⟩
    · exact ⟨e, made⟩
    · exact absurd room full
  · intro ev catalog graph clock
    rcases RuleEngine.create_settings s ev catalog graph clock with ⟨-, e, made, -⟩ | ⟨full, -⟩
    · exact ⟨e, made⟩
    · exact absurd room.1 full

/-- Settings are in their ranges. Of weights that are read, those that are numbers are not negative,
and if all are, they sum to one. Of settings that are read, shares that are numbers lie between zero
and one, and there is a worker and a level. There is a report about them; it has no error just if
all sizes are above zero and, as far as they are numbers, the scale is positive and the scores are a
range, and then engines can be made under the settings. -/
theorem accepted_inRange (j : Json) (s : EngineSettings) :
    (∀ w, RelevanceWeights.decode j = .ok w → w.Balanced) ∧
    (s.Accepted → s.InRange ∧
      ∃ r, SettingsReport.ofTable s.members = .ok r ∧ (r.errors = [] ↔ s.Sensible) ∧
        (r.errors = [] → s.MakesEngines)) := by
  constructor
  · intro w read
    exact RelevanceWeights.check_eq_ok_iff.mp (RelevanceWeights.check_of_decode read)
  · intro accepted
    obtain ⟨ms, read⟩ := accepted.exists_decode
    have inRange := inRange_decode read
    obtain ⟨r, report, clean⟩ := SettingsReport.ofTable_members inRange
    exact ⟨inRange, r, report, clean, fun none => (clean.mp none).makesEngines⟩

/-- Names that differ in case only have the same small letters one by one. -/
theorem decode_eq (ms : Members Json) :
    decode ms = decodeNamed ((Members.names ({} : EngineSettings).members).filterMap fun name =>
      ((Members.get? ms name).orElse fun _ => (ms.find? fun m =>
        Text.smallsAfter [] m.1.toList = Text.smallsAfter [] name.toList).map (·.2)).map
          (name, ·)) := by
  simp only [decode, given?, Text.smalls, String.ofList_inj]

namespace Sample

/-- Weights whose sum is only near one. -/
def nearWeights : Json :=
  .obj [("priority", .int 1), ("tags", .int 0), ("location", .float (-0.0)), ("level", .bool false),
    ("story", .float 0.0000009)]

/-- Settings beyond their ranges on both sides. -/
def farOff : Members Json :=
  [("related_min_strength", .str "-inf"), ("INDIRECT_STRENGTH_DECAY", .str "1e400"),
    ("BATCH_MAX_WORKERS", .int (-3)), ("LEVEL_PROXIMITY_WINDOW", .str " 0 "),
    ("PRIORITY_SCALE", .str "inf"), ("relevance_weights", nearWeights)]

/-- Weights of which one is given as no number. -/
def unnumberedWeights : Json := .obj [("priority", .str "nan")]

/-- Settings that are given as no number. -/
def unnumbered : Members Json :=
  [("RELATED_MIN_STRENGTH", .str "nan"), ("PRIORITY_SCALE", .str "NaN"),
    ("relevance_weights", unnumberedWeights), ("INDIRECT_STRENGTH_DECAY", .str "nan"),
    ("RECOMMENDATION_MIN_SCORE", .str "nan")]

/-- Whether something can be read and what comes of it passes a check. -/
def passes {α : Type} (check : α → Bool) : Decoded α → Bool
  | .ok v => check v
  | .refused _ => false

theorem exists_of_passes {α : Type} {check : α → Bool} {read : Decoded α}
    (h : passes check read = true) : ∃ v, read = .ok v ∧ check v = true := by
  cases read with
  | ok v => exact ⟨v, rfl, h⟩
  | refused why => cases h

end Sample

theorem accepted_inRange_farOff :
    (∃ w, RelevanceWeights.decode Sample.nearWeights = .ok w ∧ w.Balanced ∧
      w.toList = [1, 0, -0.0, 0, 0.0000009]) ∧
    ∃ s r, decode Sample.farOff = .ok s ∧ s.InRange ∧
      SettingsReport.ofTable s.members = .ok r ∧ r.errors = [] ∧ s.MakesEngines ∧
      s.weights.toList = [1, 0, -0.0, 0, 0.0000009] ∧ s.relatedMinStrength = 0 ∧
      s.graph.strengthDecay = 1 ∧ s.workers = 1 ∧ s.levelWindow = 1 := by
  have near : Sample.passes (fun w => w.toList = [1, 0, -0.0, 0, 0.0000009])
      (RelevanceWeights.decode Sample.nearWeights) = true := by
    decide +kernel
  obtain ⟨w, readWeights, same⟩ := Sample.exists_of_passes near
  have passed : Sample.passes (fun s => (0 < s.priorityScale ∧
      s.recommendedScore.1 ≤ s.recommendedScore.2 ∧ ∀ n ∈ s.sizes, 1 ≤ n) ∧
      s.weights.toList = [1, 0, -0.0, 0, 0.0000009] ∧ s.relatedMinStrength = 0 ∧
      s.graph.strengthDecay = 1 ∧ s.workers = 1 ∧ s.levelWindow = 1)
      (decode Sample.farOff) = true := by
    rw [decode_eq]
    decide +kernel
  obtain ⟨s, read, facts⟩ := Sample.exists_of_passes passed
  obtain ⟨⟨scale, scores, sizes⟩, values⟩ := of_decide_eq_true facts
  obtain ⟨balanced, settings⟩ := accepted_inRange Sample.nearWeights s
  obtain ⟨inRange, r, report, clean, engines⟩ := settings (.values read)
  have none : r.errors = [] := clean.mpr ⟨fun _ => scale, fun _ _ => scores, sizes⟩
  exact ⟨⟨w, readWeights, balanced w readWeights, of_decide_eq_true same⟩,
    s, r, read, inRange, report, none, engines none, values⟩

/-- What is no number passes all checks and is in no range: neither weights nor other settings that
are accepted, and without an error, need to be in their ranges. -/
theorem accepted_unnumbered :
    (∃ w, RelevanceWeights.decode Sample.unnumberedWeights = .ok w ∧ ¬ 0 ≤ w.priority ∧
      ¬ (Scalar.sum w.toList - 1).abs ≤ RelevanceWeights.tolerance) ∧
    ∃ s r, decode Sample.unnumbered = .ok s ∧ SettingsReport.ofTable s.members = .ok r ∧
      r.errors = [] ∧ ¬ IsShare s.graph.strengthDecay ∧ ¬ IsShare s.relatedMinStrength ∧
      ¬ 0 < s.priorityScale ∧ ¬ s.recommendedScore.1 ≤ s.recommendedScore.2 := by
  have weights : Sample.passes (fun w => ¬ 0 ≤ w.priority ∧
      ¬ (Scalar.sum w.toList - 1).abs ≤ RelevanceWeights.tolerance)
      (RelevanceWeights.decode Sample.unnumberedWeights) = true := by
    decide +kernel
  obtain ⟨w, readWeights, off⟩ := Sample.exists_of_passes weights
  have passed : Sample.passes (fun s => (s.priorityScale.isNaN = true ∧
      s.recommendedScore.1.isNaN = true ∧ ∀ n ∈ s.sizes, 1 ≤ n) ∧
      ¬ 0 ≤ s.graph.strengthDecay ∧ ¬ 0 ≤ s.relatedMinStrength ∧ ¬ 0 < s.priorityScale ∧
      ¬ s.recommendedScore.1 ≤ s.recommendedScore.2) (decode Sample.unnumbered) = true := by
    rw [decode_eq]
    decide +kernel
  obtain ⟨s, read, facts⟩ := Sample.exists_of_passes passed
  obtain ⟨⟨scale, low, sizes⟩, decay, related, rest⟩ := of_decide_eq_true facts
  obtain ⟨r, report, clean⟩ := SettingsReport.ofTable_members (inRange_decode read)
  have sensible : s.Sensible := by
    constructor
    · exact fun number => absurd (number.symm.trans scale) Bool.false_ne_true
    · exact fun number => absurd (number.symm.trans low) Bool.false_ne_true
    · exact sizes
  exact ⟨⟨w, readWeights, of_decide_eq_true off⟩, s, r, read, report, clean.mpr sensible,
    fun h => decay h.nonneg, fun h => related h.nonneg, rest⟩

end EngineSettings

end EntityRules
