import EntityRules.CommandLine.Run
import EntityRules.Proofs.Query.Writable

/-! What a query from the command line asks for, and which ones can be read. -/

namespace EntityRules

namespace Number

theorem toNat_sub_lt_of_isDigit {c : Char} (digit : c.isDigit = true) : c.toNat - 48 < 10 := by
  simp only [Char.isDigit, Bool.and_eq_true, decide_eq_true_eq, UInt32.le_iff_toNat_le] at digit
  have high : c.toNat ≤ 57 := digit.2
  omega

/-- A run of digits is less than the power of ten of their count. -/
theorem digitRun_lt (gaps : Bool) (text : List Char) {n count : Nat} (h : n < 10 ^ count) :
    (digitRun gaps text n count).1 < 10 ^ (digitRun gaps text n count).2.1 := by
  have next : ∀ {n count : Nat} {c : Char}, n < 10 ^ count → c.isDigit = true →
      10 * n + (c.toNat - 48) < 10 ^ (count + 1) := by
    intro n count c h digit
    have := toNat_sub_lt_of_isDigit digit
    rw [Nat.pow_succ]
    omega
  fun_induction digitRun gaps text n count with
  | case1 => exact h
  | case2 => exact h
  | case3 _ _ _ _ digit ih => exact ih (next h digit.2.2)
  | case4 => exact h
  | case5 _ _ _ _ _ _ digit ih => exact ih (next h digit)
  | case6 => exact h

theorem exceeds_of_count {m : Nat} {n : Int} {count most : Nat} (size : n.natAbs = m)
    (less : m < 10 ^ count) (fits : ¬ (count = 0 ∨ most < count)) :
    Json.exceeds most n = false := by
  have few : m < Nat.pow 10 most :=
    less.trans_le (Nat.pow_le_pow_right (by decide) (Nat.le_of_not_lt fun h => fits (.inr h)))
  rw [Json.exceeds, decide_eq_false_iff_not, Nat.not_le, size]
  exact few

/-- A whole number that is read from a text has few enough digits to be written. -/
theorem isLong_of_readInt? {text : String} {n : Int} (read : readInt? text = some n) :
    Json.isLong n = false := by
  unfold Json.isLong
  unfold readInt? at read
  have less := digitRun_lt true (signOf (asciiDigits text)).2 (by decide : 0 < 10 ^ 0)
  generalize signOf (asciiDigits text) = signed at read less
  obtain ⟨negative, rest⟩ := signed
  dsimp only at read less
  split at read
  · next m count run =>
    rw [run] at less
    split at read
    · cases read
    · next fits =>
      obtain rfl := Option.some.inj read
      exact exceeds_of_count (by split <;> simp) less fits
  · cases read

end Number

namespace CommandLine

variable {α β : Type}

/-- A computation ends the program instead of being reported. -/
def Escapes (r : Except CommandFailure α) : Prop := ∃ why, r = .error (.crash why)

theorem escapes_bind {r : Except CommandFailure α} {f : α → Except CommandFailure β} :
    Escapes (r >>= f) ↔ Escapes r ∨ ∃ a, r = .ok a ∧ Escapes (f a) := by
  cases r <;> simp [Escapes, bind, Except.bind]

/-- A stage behind which the program ends alike whatever the stage gives. -/
theorem escapes_stage {r : Except CommandFailure α} {f : α → Except CommandFailure β} {ends : Prop}
    (next : ∀ a, Escapes (f a) ↔ ends) : Escapes (r >>= f) ↔ Escapes r ∨ (∃ a, r = .ok a) ∧ ends := by
  simp only [escapes_bind, next, exists_and_right]

theorem not_escapes_ok (a : α) : ¬ Escapes (.ok a) := nofun

namespace QueryRequest

open Decode Decoded

variable (r : QueryRequest)

/-- All kinds that are asked for are known, and no word is missing where one has to be. -/
def IsReadable : Prop :=
  (∀ k ∈ r.kinds, ∃ kind : EntityKind, k = some (Vocabulary.name kind)) ∧ none ∉ r.tags ∧
    r.maxResults ≠ some none ∧ r.sortBy ≠ none

/-- The kinds and tags of a request as its filter reads them. -/
def readKinds : Decoded (Option (List EntityKind)) :=
  optional (list word) (argumentsJson r.kinds)

def readTags : Decoded (Option (List String)) := optional (list text) (argumentsJson r.tags)

theorem decode_filterJson_eq_ok {f : QueryFilter} :
    QueryFilter.decode r.filterJson = .ok f ↔
      ∃ kinds tags, r.readKinds = .ok kinds ∧ r.readTags = .ok tags ∧
        ({ entityTypes := kinds, tags } : QueryFilter) = f := by
  change QueryFilter.mk <$> r.readKinds.under (.member "entity_types") <*>
      r.readTags.under (.member "tags") <*> .ok none <*>
      .ok none <*> .ok none <*> .ok none <*> .ok none <*> .ok none <*> .ok none = .ok f ↔ _
  simp only [seq_eq_ok, fmap_eq_ok, under_eq_ok]
  constructor
  · simp only [Decoded.ok.injEq]
    rintro ⟨_, ⟨_, ⟨_, ⟨_, ⟨_, ⟨_, ⟨_, ⟨_, ⟨kinds, hk, rfl⟩, tags, ht, rfl⟩, _, rfl, rfl⟩, _, rfl,
      rfl⟩, _, rfl, rfl⟩, _, rfl, rfl⟩, _, rfl, rfl⟩, _, rfl, rfl⟩, _, rfl, rfl⟩
    exact ⟨kinds, tags, hk, ht, rfl⟩
  · rintro ⟨kinds, tags, hk, ht, rfl⟩
    exact ⟨_, ⟨_, ⟨_, ⟨_, ⟨_, ⟨_, ⟨_, ⟨_, ⟨kinds, hk, rfl⟩, tags, ht, rfl⟩, _, rfl, rfl⟩, _, rfl,
      rfl⟩, _, rfl, rfl⟩, _, rfl, rfl⟩, _, rfl, rfl⟩, _, rfl, rfl⟩, _, rfl, rfl⟩

theorem exists_itemsFrom_iff (dec : Json → Decoded α) (i : Nat) (items : List Json) :
    (∃ vs, itemsFrom dec i items = .ok vs) ↔ ∀ j ∈ items, ∃ v, dec j = .ok v := by
  induction items generalizing i with
  | nil => exact iff_of_true ⟨[], rfl⟩ nofun
  | cons j rest ih =>
    simp only [itemsFrom, seq_eq_ok, fmap_eq_ok, under_eq_ok, List.forall_mem_cons, ← ih (i + 1)]
    constructor
    · rintro ⟨_, _, ⟨v, hv, rfl⟩, vs, hvs, rfl⟩
      exact ⟨⟨v, hv⟩, vs, hvs⟩
    · rintro ⟨⟨v, hv⟩, vs, hvs⟩
      exact ⟨_, _, ⟨v, hv, rfl⟩, vs, hvs, rfl⟩

/-- Arguments are read if each of them is. -/
theorem exists_arguments_iff (dec : Json → Decoded α) (arguments : List Argument) :
    (∃ v, optional (list dec) (argumentsJson arguments) = .ok v) ↔
      ∀ a ∈ arguments, ∃ v, dec (argumentJson .str a) = .ok v := by
  cases arguments with
  | nil => exact iff_of_true ⟨none, rfl⟩ nofun
  | cons a rest =>
    have given : optional (list dec) (argumentsJson (a :: rest)) =
        some <$> itemsFrom dec 0 ((a :: rest).map (argumentJson .str)) := rfl
    have items := exists_itemsFrom_iff dec 0 ((a :: rest).map (argumentJson .str))
    rw [List.forall_mem_map] at items
    rw [← items, given]
    simp only [fmap_eq_ok]
    exact ⟨fun ⟨_, vs, hvs, _⟩ => ⟨vs, hvs⟩, fun ⟨vs, hvs⟩ => ⟨_, vs, hvs, rfl⟩⟩

theorem exists_word_iff (a : Argument) :
    (∃ kind : EntityKind, word (argumentJson .str a) = .ok kind) ↔
      ∃ kind : EntityKind, a = some (Vocabulary.name kind) := by
  cases a with
  | none => exact iff_of_false nofun nofun
  | some name =>
    rw [argumentJson, word]
    constructor
    · rintro ⟨kind, read⟩
      split at read
      · next found =>
        exact ⟨kind, congrArg some (Vocabulary.name_of_ofName? (Decoded.ok.inj read ▸ found)).symm⟩
      · cases read
    · rintro ⟨kind, same⟩
      obtain rfl := Option.some.inj same
      refine ⟨kind, ?_⟩
      cases kind <;> rfl

theorem exists_text_iff (a : Argument) :
    (∃ tag, text (argumentJson .str a) = .ok tag) ↔ a ≠ none := by
  cases a with
  | none => exact iff_of_false nofun (fun h => h rfl)
  | some name => exact iff_of_true ⟨name, rfl⟩ nofun

/-- A filter is read if all kinds are known and no tag is missing. -/
theorem exists_filter_iff :
    (∃ f, QueryFilter.decode r.filterJson = .ok f) ↔
      (∀ k ∈ r.kinds, ∃ kind : EntityKind, k = some (Vocabulary.name kind)) ∧ none ∉ r.tags := by
  have kinds : (∃ v, r.readKinds = .ok v) ↔
      ∀ k ∈ r.kinds, ∃ kind : EntityKind, k = some (Vocabulary.name kind) := by
    simp only [readKinds, exists_arguments_iff, exists_word_iff]
  have tags : (∃ v, r.readTags = .ok v) ↔ none ∉ r.tags := by
    simp only [readTags, exists_arguments_iff, exists_text_iff]
    exact ⟨fun each missing => each none missing rfl, fun each a ha same => each (same ▸ ha)⟩
  simp only [decode_filterJson_eq_ok, ← kinds, ← tags]
  exact ⟨fun ⟨_, ks, ts, hk, ht, _⟩ => ⟨⟨ks, hk⟩, ts, ht⟩,
    fun ⟨⟨ks, hk⟩, ts, ht⟩ => ⟨_, ks, ts, hk, ht, rfl⟩⟩

/-- Options are read if no word is missing. -/
theorem exists_options_iff :
    (∃ o, QueryOptions.decode r.optionsJson = .ok o) ↔ r.maxResults ≠ some none ∧ r.sortBy ≠ none := by
  have most : (∃ n, optional whole (Encode.optional (argumentJson wholeJson) r.maxResults) = .ok n) ↔
      r.maxResults ≠ some none := by
    match r.maxResults with
    | none => exact iff_of_true ⟨none, rfl⟩ nofun
    | some none => exact iff_of_false nofun fun h => h rfl
    | some (some name) =>
      refine iff_of_true ?_ nofun
      change ∃ n, optional whole (Encode.optional .int (Number.readInt? name)) = .ok n
      cases Number.readInt? name with
      | none => exact ⟨none, rfl⟩
      | some n => exact ⟨some n, rfl⟩
  rw [← most, ← exists_text_iff]
  change (∃ o, QueryOptions.mk <$>
      (optional whole (Encode.optional (argumentJson wholeJson) r.maxResults)).under
        (.member "max_results") <*>
      .ok r.includeRelated <*> (text (argumentJson .str r.sortBy)).under (.member "sort_by") <*>
      .ok true = .ok o) ↔ _
  simp only [seq_eq_ok, fmap_eq_ok, under_eq_ok]
  constructor
  · rintro ⟨_, _, ⟨_, ⟨_, ⟨n, hn, rfl⟩, _, _, rfl⟩, name, hs, rfl⟩, _⟩
    exact ⟨⟨n, hn⟩, name, hs⟩
  · rintro ⟨⟨n, hn⟩, name, hs⟩
    exact ⟨_, _, ⟨_, ⟨_, ⟨n, hn, rfl⟩, _, rfl, rfl⟩, name, hs, rfl⟩, _, rfl, rfl⟩

/-- The number of results that options ask for can be written, and what is asked for can be
remembered. -/
theorem decode_optionsJson {o : QueryOptions} (read : QueryOptions.decode r.optionsJson = .ok o) :
    o.useCache = true ∧ ∀ n ∈ o.maxResults, Json.isLong n = false := by
  change QueryOptions.mk <$>
      (optional whole (Encode.optional (argumentJson wholeJson) r.maxResults)).under
        (.member "max_results") <*>
      .ok r.includeRelated <*> (text (argumentJson .str r.sortBy)).under (.member "sort_by") <*>
      .ok true = .ok o at read
  simp only [seq_eq_ok, fmap_eq_ok, under_eq_ok, Decoded.ok.injEq] at read
  obtain ⟨_, ⟨_, ⟨_, ⟨most, given, rfl⟩, _, -, rfl⟩, _, -, rfl⟩, _, rfl, rfl⟩ := read
  refine ⟨rfl, fun n hn => ?_⟩
  obtain rfl := Option.mem_def.mp hn
  cases asked : r.maxResults with
  | none =>
    rw [asked] at given
    cases given
  | some argument =>
    cases argument with
    | none =>
      rw [asked] at given
      cases given
    | some name =>
      rw [asked] at given
      replace given : optional whole (wholeJson name) = .ok (some n) := given
      unfold wholeJson at given
      cases read : Number.readInt? name with
      | none =>
        rw [read] at given
        cases given
      | some m =>
        rw [read] at given
        cases given
        exact Number.isLong_of_readInt? read

theorem isReadable_iff :
    r.IsReadable ↔ (∃ f, QueryFilter.decode r.filterJson = .ok f) ∧
      ∃ o, QueryOptions.decode r.optionsJson = .ok o := by
  rw [r.exists_filter_iff, r.exists_options_iff, IsReadable, and_assoc]

/-- A filter that is read from a request has no conditions. -/
theorem conditionless {f : QueryFilter} (read : QueryFilter.decode r.filterJson = .ok f) :
    f.conditions.getD [] = [] := by
  obtain ⟨kinds, tags, -, -, rfl⟩ := r.decode_filterJson_eq_ok.mp read
  rfl

end QueryRequest

theorem escapes_requested_iff (record : String) (a : Decoded α) :
    Escapes (requested record a) ↔ ¬ ∃ v, a = .ok v := by
  cases a with
  | ok v => exact iff_of_false nofun fun h => h ⟨v, rfl⟩
  | refused why =>
    refine iff_of_true ?_ nofun
    cases why with
    | faults fs => exact ⟨_, rfl⟩
    | shapeOfNumber => exact ⟨_, rfl⟩
    | sizeOfNumber => exact ⟨_, rfl⟩

theorem requested_eq_ok {record : String} {a : Decoded α} {v : α} :
    requested record a = .ok v ↔ a = .ok v := by
  cases a with
  | ok w => exact ⟨fun h => congrArg _ (Except.ok.inj h), fun h => congrArg _ (Decoded.ok.inj h)⟩
  | refused why => cases why <;> exact ⟨nofun, nofun⟩

end CommandLine

end EntityRules
