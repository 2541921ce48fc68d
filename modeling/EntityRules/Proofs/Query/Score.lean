import EntityRules.Proofs.Except
import EntityRules.Proofs.Members
import EntityRules.Proofs.Number.Weighted
import EntityRules.Query.Score
import Mathlib.Data.Finset.Card

/-! What the score of a record depends on. -/

namespace EntityRules

open Binary64 Float.Model Float.Model.UnpackedFloat

namespace RelevanceWeights

variable {w : RelevanceWeights Float}

/-- Weights with an infinite sum are off one. -/
theorem isOff_of_infinite {total : Float} (h : total.toModel.unpack = .infinity .positive) :
    isOff total = true := by
  change decide (tolerance <
    (Float.ofModel (.pack (UnpackedFloat.sub _ total.toModel.unpack _))).abs) = true
  rw [h]
  decide

/-- Accepted weights that are numbers are finite and not negative. -/
theorem weight_of_check (accepted : w.check = .ok w) (numbers : ∀ x ∈ w.toList, x.isNaN = false)
    {x : Float} (hx : x ∈ w.toList) : 0 ≤ x ∧ x.isFinite = true := by
  unfold check at accepted
  split at accepted
  · cases accepted
  · next fine =>
    rw [Bool.or_eq_true, not_or, List.any_eq_true] at fine
    obtain ⟨negative, off⟩ := fine
    have least : ∀ y ∈ w.toList, 0 ≤ y := by
      intro y hy
      refine nonneg_iff.mpr ⟨numbers y hy, ?_⟩
      have below : ¬ y < 0 := fun less => negative ⟨y, hy, decide_eq_true less⟩
      rwa [lt_iff_count (numbers y hy) (by decide), count_zero, not_lt] at below
    obtain ⟨start, parts⟩ := le_foldl_add (x := 0) (by decide) least
    have finite : (Scalar.sum w.toList).isFinite = true := by
      by_contra infinite
      rw [Bool.not_eq_true] at infinite
      exact off (isOff_of_infinite (infinity_of_le (by decide) start infinite))
    exact ⟨least x hx, isFinite_of_nonneg_of_le (least x hx) (parts x hx) finite⟩

/-- The weights that count where none are given are accepted. -/
theorem standard_check : standard.check = .ok standard := by
  have fine : (standard.toList.any (· < 0.0) || isOff (Scalar.sum standard.toList)) = false := by
    decide
  exact if_neg (by rw [fine]; exact Bool.false_ne_true)

end RelevanceWeights

/-- Two shares, the second one no less than the first if its record is ahead. -/
structure InOrder (ahead : Prop) (x x' : Float) : Prop where
  first : IsShare x
  second : IsShare x'
  le : ahead → x ≤ x'

theorem InOrder.refl {ahead : Prop} {x : Float} (h : IsShare x) : InOrder ahead x x :=
  ⟨h, h, fun _ => le_self h.nonneg⟩

/-- Numbers that are in order stay so when they are brought into the range from zero to one. -/
theorem inOrder_clamp (x x' : Float) : InOrder (x ≤ x') (Scalar.clamp x) (Scalar.clamp x') :=
  ⟨clamp_isShare x, clamp_isShare x', clamp_mono⟩

theorem InOrder.of_imp {ahead ahead' : Prop} {x x' : Float} (h : InOrder ahead x x')
    (implied : ahead' → ahead) : InOrder ahead' x x' :=
  ⟨h.first, h.second, fun further => h.le (implied further)⟩

namespace ScoringRules

variable {rules : ScoringRules Float} {filter : QueryFilter} {state : GameState}
  {e e' : EntityRecord Float}

/-- A size above zero is a scalar above zero. -/
theorem scalar_pos {size : Extent Float} {scale : Float} (h : size.scalar = .ok scale)
    (positive : size.isPositive = .ok true) : 0 < count scale := by
  -- A whole number of at least one is rounded to one at least.
  have whole {n : ℤ} (hn : 1 ≤ n) (hs : Extent.scalarOf n = .ok scale) : 0 < count scale := by
    unfold Extent.scalarOf at hs
    split at hs
    · next x nearest =>
      cases hs
      rw [show Scalar.ratio? n 1 = Binary64.ofQuotient? n 1 from rfl, ofQuotient?_one] at nearest
      calc (0 : ℤ) < oneUnits := Int.natCast_pos.mpr oneUnits_pos
        _ = rounded oneUnits := rounded_one.symm
        _ ≤ rounded (n * oneUnits) :=
          rounded_mono (le_mul_of_one_le_left (Int.natCast_nonneg oneUnits) hn)
        _ = count scale := (count_ofInt nearest).2.symm
    · cases hs
  cases size with
  | whole n => exact whole (of_decide_eq_true (Except.ok.inj positive)) h
  | flag b =>
    cases Except.ok.inj positive
    exact whole le_rfl h
  | fractional x =>
    cases h
    have above : (0 : Float) < scale := of_decide_eq_true (Except.ok.inj positive)
    rwa [lt_iff_count (by decide) (numbers_of_lt above).2, count_zero] at above
  | foreign type => cases h

theorem priorityFactor_inOrder {scale : Float} (h : rules.priorityScale.scalar = .ok scale)
    (finite : scale.isFinite = true) (p p' : Float) :
    ∃ x x', rules.priorityFactor p = .ok x ∧ rules.priorityFactor p' = .ok x' ∧
      InOrder (p ≤ p') x x' := by
  obtain ⟨positive, hp⟩ : ∃ positive, rules.priorityScale.isPositive = .ok positive := by
    cases hs : rules.priorityScale with
    | foreign type => rw [hs] at h; cases h
    | _ => exact ⟨_, rfl⟩
  unfold priorityFactor
  rw [hp, h]
  cases positive with
  | false => exact ⟨0, 0, rfl, rfl, .refl isShare_zero⟩
  | true =>
    refine ⟨_, _, rfl, rfl, (inOrder_clamp _ _).of_imp fun less => ?_⟩
    exact div_le_div_right less finite (scalar_pos h hp)

/-- How many of the wanted tags a record has. -/
def wantedTags (filter : QueryFilter) (e : EntityRecord Float) : ℕ :=
  ((filter.tags.getD []).toFinset ∩ e.tags.toFinset).card

theorem length_sharedTags (wanted tags : List String) :
    (sharedTags wanted tags).length = (wanted.toFinset ∩ tags.toFinset).card := by
  have once : (sharedTags wanted tags).Nodup := (Members.nodup_eraseDups wanted).filter _
  rw [← List.toFinset_card_of_nodup once]
  congr 1
  ext tag
  simp [sharedTags]

theorem tagFactor_inOrder (e e' : EntityRecord Float) :
    InOrder (wantedTags filter e ≤ wantedTags filter e')
      (tagFactor filter.tags e.tags) (tagFactor filter.tags e'.tags) := by
  unfold wantedTags tagFactor
  split
  · exact .refl isShare_zero
  · exact .refl isShare_zero
  · next wanted some same =>
    have asked : 0 < wanted.eraseDups.length := by
      cases wanted with
      | nil => exact (some rfl).elim
      | cons tag rest =>
        rw [List.eraseDups_cons]
        exact Nat.succ_pos _
    obtain ⟨finite, -⟩ := scalarCount_spec wanted.eraseDups.length
    have pos := scalarCount_pos asked
    have share (tags : List String) :
        IsShare (Scalar.count (sharedTags wanted tags).length /
          Scalar.count wanted.eraseDups.length) := by
      have most : (Scalar.count (sharedTags wanted tags).length : Float) ≤
        Scalar.count wanted.eraseDups.length := scalarCount_mono (List.length_filter_le _ _)
      exact ⟨div_nonneg (scalarCount_nonneg _) finite pos, div_le_one most finite pos⟩
    refine ⟨share e.tags, share e'.tags, fun more => ?_⟩
    rw [same, Option.getD_some, ← length_sharedTags, ← length_sharedTags] at more
    exact div_le_div_right (scalarCount_mono more) finite pos

/-- Whether a record is at the wanted location. -/
def InPlace (filter : QueryFilter) (e : EntityRecord Float) : Prop :=
  ∃ place, place ≠ "" ∧ filter.location = some place ∧ e.location = some place

theorem locationFactor_inOrder (e e' : EntityRecord Float) :
    InOrder (InPlace filter e → InPlace filter e')
      (locationFactor filter.location e.location) (locationFactor filter.location e'.location) := by
  unfold locationFactor InPlace
  split
  · exact .refl isShare_zero
  · exact .refl isShare_zero
  · next place some same =>
    have share (location : Option String) : IsShare (if location = .some place then 1 else 0) := by
      split
      · exact isShare_one
      · exact isShare_zero
    refine ⟨share e.location, share e'.location, fun kept => ?_⟩
    by_cases here : e.location = .some place
    · obtain ⟨other, -, asked, there⟩ := kept ⟨place, fun none => some none, same, here⟩
      cases same.symm.trans asked
      rw [if_pos here, if_pos there]
      exact le_self isShare_one.nonneg
    · rw [if_neg here]
      exact (share e'.location).nonneg

/-- How far the required level of a record is from that of the player. -/
def levelDistance (state : GameState) (e : EntityRecord Float) : ℕ :=
  match e.requiredLevel with
  | none => 0
  | some required => (required - state.player.level).natAbs

/-- Whether a number of levels is in the range of doubles. -/
def InRange (distance : ℕ) : Prop := ∃ x, Binary64.ofInt? distance = some x

theorem InRange.rounded_lt {distance : ℕ} (h : InRange distance) :
    rounded (distance * oneUnits) < limit := by
  obtain ⟨x, nearest⟩ := h
  obtain ⟨finite, size⟩ := count_ofInt nearest
  rw [← size]
  exact ((isFinite_iff_count (isNaN_of_isFinite finite)).mp finite).2

/-- A window is at least one level, and it is whole or fractional. -/
theorem atLeastOne_cases {size : Extent Float} (known : ∀ type, size ≠ .foreign type) :
    (∃ n, 1 ≤ n ∧ size.atLeastOne = .ok (.whole n)) ∨
      ∃ x, 1 < x ∧ size.atLeastOne = .ok (.fractional x) := by
  cases size with
  | whole n => exact .inl ⟨max 1 n, le_max_left 1 n, rfl⟩
  | flag b => exact .inl ⟨1, le_rfl, rfl⟩
  | fractional x =>
    by_cases above : (1 : Float) < x
    · exact .inr ⟨x, above, congrArg Except.ok (if_pos (decide_eq_true above))⟩
    · have one : ¬ Scalar.lt 1 x = true := fun h => above (of_decide_eq_true h)
      exact .inl ⟨1, le_rfl, congrArg Except.ok (if_neg one)⟩
  | foreign type => exact absurd rfl (known type)

/-- What a window of whole levels leaves, rounded: one at most, and no infinity. -/
theorem roundedShare_bounds {distance : ℕ} {n : ℤ} (hn : 1 ≤ n) (fits : InRange distance) :
    -(limit : ℤ) < roundedQuotient ((n - distance) * oneUnits) n.toNat ∧
      roundedQuotient ((n - distance) * oneUnits) n.toNat ≤ oneUnits := by
  have unit : (0 : ℤ) ≤ oneUnits := Int.natCast_nonneg oneUnits
  have whole : (n.toNat : ℤ) = n := Int.toNat_of_nonneg (by omega)
  constructor
  · -- As the window is at least one level, the share is at least minus the distance.
    have least : -(distance : ℤ) * n ≤ n - distance := by
      have more : (0 : ℤ) ≤ distance * (n - 1) :=
        Int.mul_nonneg (Int.natCast_nonneg distance) (by omega)
      rw [mul_sub, mul_one] at more
      rw [neg_mul]
      omega
    calc -(limit : ℤ) < -rounded (distance * oneUnits) := Int.neg_lt_neg fits.rounded_lt
      _ = roundedQuotient (-(distance * oneUnits) * n.toNat) n.toNat := by
          rw [roundedQuotient_mul (by omega), rounded_neg]
      _ ≤ roundedQuotient ((n - distance) * oneUnits) n.toNat := by
          refine roundedQuotient_mono (by omega) ?_
          rw [whole, ← neg_mul, mul_right_comm]
          exact Int.mul_le_mul_of_nonneg_right least unit
  · calc roundedQuotient ((n - distance) * oneUnits) n.toNat
        ≤ roundedQuotient (oneUnits * n.toNat) n.toNat := by
          refine roundedQuotient_mono (by omega) ?_
          rw [whole, mul_comm (oneUnits : ℤ)]
          exact Int.mul_le_mul_of_nonneg_right (by omega) unit
      _ = oneUnits := by rw [roundedQuotient_mul (by omega), rounded_one]

/-- What a window of whole levels leaves is in the range of doubles and no more than one. -/
theorem shareLeft_whole {distance : ℕ} {n : ℤ} (hn : 1 ≤ n) (fits : InRange distance) :
    ∃ q, (Extent.whole n).shareLeft distance = .ok q ∧ q ≤ 1 ∧
      count q = roundedQuotient ((n - distance) * oneUnits) n.toNat := by
  obtain ⟨least, most⟩ := roundedShare_bounds hn fits
  obtain ⟨q, found, finite, size⟩ | ⟨-, beyond⟩ :=
    ofQuotient?_cases (show 0 < n by omega) (n - distance)
  · refine ⟨q, ?_, ?_, size⟩
    · change Extent.wholeShareLeft distance n = _
      unfold Extent.wholeShareLeft
      rw [show Scalar.ratio? (n - distance) n = some q from found]
    · rw [le_iff_count (isNaN_of_isFinite finite) (by decide), size, count_one]
      exact most
  · have room := oneUnits_lt
    omega

/-- What a window of fractional levels leaves is a quotient of doubles. -/
theorem shareLeft_fractional {distance : ℕ} (x : Float) (fits : InRange distance) :
    ∃ y, (Extent.fractional x).shareLeft distance = .ok ((x + y) / x) ∧ y.isFinite = true ∧
      count y = -rounded (distance * oneUnits) ∧ count y ≤ 0 := by
  have units := roundedQuotient_mul Nat.one_pos (-(distance : ℤ) * oneUnits)
  rw [Nat.cast_one, mul_one, neg_mul, rounded_neg, ← neg_mul] at units
  have room := fits.rounded_lt
  have least : 0 ≤ rounded (distance * oneUnits) :=
    rounded_nonneg (Int.mul_nonneg (Int.natCast_nonneg _) (Int.natCast_nonneg _))
  obtain ⟨y, found, finite, size⟩ | ⟨-, beyond⟩ :=
    ofQuotient?_cases Int.one_pos (-(distance : ℤ))
  · rw [Int.toNat_one, units] at size
    refine ⟨y, ?_, finite, size, by omega⟩
    change Except.map _ (Extent.scalarOf (-(distance : ℤ))) = _
    unfold Extent.scalarOf
    rw [show Scalar.ratio? (-(distance : ℤ)) 1 = some y from found]
    rfl
  · rw [Int.toNat_one, units] at beyond
    omega

/-- An infinite window leaves nothing that is a number. -/
theorem isNaN_of_infinite {x y : Float} (hx : x.toModel.unpack = .infinity .positive)
    (hy : y.isFinite = true) : ((x + y) / x).isNaN = true := by
  change (UnpackedFloat.unpack _ (UnpackedFloat.pack _ (UnpackedFloat.div _
    (UnpackedFloat.unpack _ (UnpackedFloat.pack _
      (UnpackedFloat.add _ x.toModel.unpack y.toModel.unpack))) x.toModel.unpack))).isNaN = true
  rw [hx, infinity_add hy]
  decide

/-- The less is taken from a window of fractional levels, the more is left of it. -/
theorem fractional_inOrder {x y y' : Float} (hx : 1 < x) (hy : y.isFinite = true)
    (hy' : y'.isFinite = true) (most : count y ≤ 0) (most' : count y' ≤ 0) :
    InOrder (count y ≤ count y') (Scalar.max 0 ((x + y) / x)) (Scalar.max 0 ((x + y') / x)) := by
  obtain ⟨-, nx⟩ := numbers_of_lt hx
  rw [lt_iff_count (by decide) nx, count_one] at hx
  have unit := oneUnits_pos
  cases fx : x.isFinite with
  | false =>
    have infinite := infinity_of_le (by decide) (nonneg_iff.mpr ⟨nx, by omega⟩) fx
    rw [max_zero_of_isNaN (isNaN_of_infinite infinite hy),
      max_zero_of_isNaN (isNaN_of_infinite infinite hy')]
    exact .refl isShare_zero
  | true =>
    have pos : 0 < count x := by omega
    have share {z : Float} (hz : z.isFinite = true) (most : count z ≤ 0) :
        IsShare (Scalar.max 0 ((x + z) / x)) := by
      have less : x + z ≤ x := by
        rw [le_iff_count (isNaN_add fx (isNaN_of_isFinite hz)) nx, count_add fx hz]
        calc rounded (count x + count z) ≤ rounded (count x) := rounded_mono (by omega)
          _ = count x := rounded_count fx
      exact max_zero_isShare (div_le_one less fx pos)
    refine ⟨share hy most, share hy' most', fun less => max_zero_mono (div_le_div_right ?_ fx pos)⟩
    rw [le_iff_count (isNaN_add fx (isNaN_of_isFinite hy)) (isNaN_add fx (isNaN_of_isFinite hy')),
      count_add fx hy, count_add fx hy']
    exact rounded_mono (Int.add_le_add_left less _)

theorem levelFactor_eq {window : Extent Float} {q : Float}
    (hw : rules.levelWindow.atLeastOne = .ok window)
    (hq : window.shareLeft (levelDistance state e) = .ok q) :
    rules.levelFactor e.requiredLevel state.player.level = .ok (Scalar.max 0 q) := by
  have distance :
      (e.requiredLevel.getD state.player.level - state.player.level).natAbs =
        levelDistance state e := by
    unfold levelDistance
    cases e.requiredLevel with
    | none => rw [Option.getD_none, sub_self, Int.natAbs_zero]
    | some required => rfl
  unfold levelFactor
  rw [hw, distance]
  change Except.map _ (window.shareLeft _) = _
  rw [hq]
  rfl

theorem levelFactor_inOrder (known : ∀ type, rules.levelWindow ≠ .foreign type)
    (fits : InRange (levelDistance state e)) (fits' : InRange (levelDistance state e')) :
    ∃ x x', rules.levelFactor e.requiredLevel state.player.level = .ok x ∧
      rules.levelFactor e'.requiredLevel state.player.level = .ok x' ∧
      InOrder (levelDistance state e' ≤ levelDistance state e) x x' := by
  have unit : (0 : ℤ) ≤ oneUnits := Int.natCast_nonneg _
  obtain ⟨n, hn, window⟩ | ⟨x, hx, window⟩ := atLeastOne_cases known
  · obtain ⟨q, left, most, size⟩ := shareLeft_whole hn fits
    obtain ⟨q', left', most', size'⟩ := shareLeft_whole hn fits'
    refine ⟨_, _, levelFactor_eq window left, levelFactor_eq window left',
      max_zero_isShare most, max_zero_isShare most', fun nearer => max_zero_mono ?_⟩
    rw [le_iff_count (isNaN_of_le most).1 (isNaN_of_le most').1, size, size']
    exact roundedQuotient_mono (by omega) (Int.mul_le_mul_of_nonneg_right (by omega) unit)
  · obtain ⟨y, left, finite, size, most⟩ := shareLeft_fractional x fits
    obtain ⟨y', left', finite', size', most'⟩ := shareLeft_fractional x fits'
    refine ⟨_, _, levelFactor_eq window left, levelFactor_eq window left',
      (fractional_inOrder hx finite finite' most most').of_imp fun nearer => ?_⟩
    rw [size, size']
    exact Int.neg_le_neg (rounded_mono (Int.mul_le_mul_of_nonneg_right (by omega) unit))

theorem storyFactor_inOrder (relevance relevance' : Option Float) (story : Option StoryState) :
    InOrder (relevance.getD 0 ≤ relevance'.getD 0)
      (storyFactor relevance story) (storyFactor relevance' story) := by
  cases story with
  | none =>
    have none (r : Option Float) : storyFactor r none = 0 := by cases r <;> rfl
    rw [none, none]
    exact .refl isShare_zero
  | some current =>
    have clamped (r : Option Float) : storyFactor r (some current) = Scalar.clamp (r.getD 0) := by
      cases r with
      | none => exact (by decide : (0 : Float) = Scalar.clamp 0)
      | some r => rfl
    rw [clamped, clamped]
    exact inOrder_clamp _ _

/-- The sum of the factors with their weights. -/
def weighted (w : RelevanceWeights Float) (priority tags location level story : Float) : Float :=
  w.priority * priority + w.tags * tags + w.location * location + w.level * level + w.story * story

/-- Greater shares make no lesser sum with the same weights. -/
theorem weighted_mono {w : RelevanceWeights Float}
    (weights : ∀ v ∈ w.toList, 0 ≤ v ∧ v.isFinite = true) {ahead : Prop} (h : ahead)
    {p t l d s p' t' l' d' s' : Float} (hp : InOrder ahead p p') (ht : InOrder ahead t t')
    (hl : InOrder ahead l l') (hd : InOrder ahead d d') (hs : InOrder ahead s s') :
    weighted w p t l d s ≤ weighted w p' t' l' d' s' := by
  have part {v x x' : Float} (hv : v ∈ w.toList) (hx : InOrder ahead x x') :
      0 ≤ v * x ∧ v * x ≤ v * x' := by
    obtain ⟨least, finite⟩ := weights v hv
    exact ⟨mul_nonneg finite least hx.first, mul_le_mul_left finite (nonneg_iff.mp least).2
      (hx.le h) hx.first.isFinite hx.second.isFinite⟩
  have sum {x x' y y' : Float} (hx : 0 ≤ x ∧ x ≤ x') (hy : 0 ≤ y ∧ y ≤ y') :
      0 ≤ x + y ∧ x + y ≤ x' + y' :=
    ⟨add_nonneg hx.1 hy.1, add_le_add hx.1 hy.1 hx.2 hy.2⟩
  have priority := part (v := w.priority) (by simp [RelevanceWeights.toList]) hp
  have tags := part (v := w.tags) (by simp [RelevanceWeights.toList]) ht
  have location := part (v := w.location) (by simp [RelevanceWeights.toList]) hl
  have level := part (v := w.level) (by simp [RelevanceWeights.toList]) hd
  have story := part (v := w.story) (by simp [RelevanceWeights.toList]) hs
  exact (sum (sum (sum (sum priority tags) location) level) story).2

theorem score_eq {priority level : Float} (hp : rules.priorityFactor e.priority = .ok priority)
    (hl : rules.levelFactor e.requiredLevel state.player.level = .ok level) :
    rules.score filter state e = .ok (Scalar.clamp (weighted rules.weights priority
      (tagFactor filter.tags e.tags) (locationFactor filter.location e.location) level
      (storyFactor e.storyRelevance state.story))) := by
  unfold score
  rw [hp, hl]
  rfl

/-- Rules that records can be scored by. -/
structure Usable (rules : ScoringRules Float) : Prop where
  accepted : rules.weights.check = .ok rules.weights
  numbers : ∀ w ∈ rules.weights.toList, w.isNaN = false
  window : ∀ type, rules.levelWindow ≠ .foreign type
  scale : ∃ x, rules.priorityScale.scalar = .ok x ∧ x.isFinite = true

/-- The second record has at least the priority, the wanted tags, the location, the level and the
story relevance of the first. What is absent is no distance and no relevance. -/
structure IsAhead (filter : QueryFilter) (state : GameState) (e e' : EntityRecord Float) :
    Prop where
  priority : e.priority ≤ e'.priority
  tags : wantedTags filter e ≤ wantedTags filter e'
  location : InPlace filter e → InPlace filter e'
  level : levelDistance state e' ≤ levelDistance state e
  story : e.storyRelevance.getD 0 ≤ e'.storyRelevance.getD 0

/-- Every score is from zero to one, and a record that is ahead of another has at least its score.
Numbers that compare are no non-numbers, so being ahead leaves those out. -/
theorem score_inOrder (usable : rules.Usable) (fits : InRange (levelDistance state e))
    (fits' : InRange (levelDistance state e')) :
    ∃ x x', rules.score filter state e = .ok x ∧ rules.score filter state e' = .ok x' ∧
      InOrder (IsAhead filter state e e') x x' := by
  obtain ⟨scale, hs, finite⟩ := usable.scale
  obtain ⟨p, p', hp, hp', priority⟩ := priorityFactor_inOrder hs finite e.priority e'.priority
  obtain ⟨l, l', hl, hl', level⟩ := levelFactor_inOrder usable.window fits fits'
  refine ⟨_, _, score_eq hp hl, score_eq hp' hl', (inOrder_clamp _ _).of_imp fun ahead => ?_⟩
  exact weighted_mono (fun _ => RelevanceWeights.weight_of_check usable.accepted usable.numbers)
    ahead (priority.of_imp (·.priority)) ((tagFactor_inOrder e e').of_imp (·.tags))
    ((locationFactor_inOrder e e').of_imp (·.location)) (level.of_imp (·.level))
    ((storyFactor_inOrder _ _ _).of_imp (·.story))

namespace Sample

def standard : ScoringRules Float :=
  { weights := .standard, priorityScale := .fractional 10, levelWindow := .whole 10 }

theorem standard_usable : standard.Usable where
  accepted := RelevanceWeights.standard_check
  numbers := by decide
  window := nofun
  scale := ⟨10, rfl, by decide⟩

def lamp (priority : Float) (tags : List String) (requiredLevel : Option Int)
    (storyRelevance : Option Float) : EntityRecord Float :=
  { id := "item_lamp", kind := .item, name := none, tags, priority, location := some "harbor"
    requiredLevel, storyRelevance, playerAlignment := none, difficulty := none, timestamp := none
    availableFrom := none, availableUntil := none, requiredPhase := none, requirements := none
    minEventInterval := none, resourceRequirements := none, metadata := [], extras := [] }

def dim : EntityRecord Float := lamp 2 ["oil", "oil"] (some 19) (some (-3))

def bright : EntityRecord Float := lamp 40 ["glass", "oil"] none none

def wanted : QueryFilter := { tags := some ["oil", "glass", "oil"], location := some "harbor" }

def evening : GameState := { player := { level := 4 }, story := some {} }

theorem bright_isAhead : IsAhead wanted evening dim bright where
  priority := by decide
  tags := by decide
  location := fun _ => ⟨"harbor", by decide, rfl, rfl⟩
  level := by decide
  story := by decide

end Sample

/-- A lamp that is far off the player's level, and a better one that asks for no level. -/
theorem score_inOrder_lamps :
    Sample.standard.Usable ∧ InRange (levelDistance Sample.evening Sample.dim) ∧
      InRange (levelDistance Sample.evening Sample.bright) ∧
      IsAhead Sample.wanted Sample.evening Sample.dim Sample.bright ∧
      ∃ x x', Sample.standard.score Sample.wanted Sample.evening Sample.dim = .ok x ∧
        Sample.standard.score Sample.wanted Sample.evening Sample.bright = .ok x' ∧
        0 ≤ x ∧ x ≤ x' ∧ x' ≤ 1 := by
  have fits : InRange (levelDistance Sample.evening Sample.dim) := ⟨15, by decide⟩
  have fits' : InRange (levelDistance Sample.evening Sample.bright) := ⟨0, by decide⟩
  obtain ⟨x, x', hx, hx', order⟩ := @score_inOrder Sample.standard Sample.wanted Sample.evening
    Sample.dim Sample.bright Sample.standard_usable fits fits'
  exact ⟨Sample.standard_usable, fits, fits', Sample.bright_isAhead, x, x', hx, hx',
    order.first.nonneg, order.le Sample.bright_isAhead, order.second.le_one⟩

end ScoringRules

end EntityRules
