import EntityRules.Decode
import EntityRules.Encode
import EntityRules.Proofs.Moment.Text

/-! Documents that are read back. -/

namespace EntityRules

variable {α β : Type}

namespace Decoded

theorem fmap_eq_ok {f : α → β} {a : Decoded α} {b : β} :
    f <$> a = .ok b ↔ ∃ v, a = .ok v ∧ f v = b := by
  cases a with
  | ok v => simp
  | refused why => exact ⟨nofun, nofun⟩

theorem seq_eq_ok {f : Decoded (α → β)} {a : Decoded α} {b : β} :
    f <*> a = .ok b ↔ ∃ g, f = .ok g ∧ ∃ v, a = .ok v ∧ g v = b := by
  cases f with
  | ok g =>
    cases a with
    | ok v => simp
    | refused why => exact ⟨nofun, nofun⟩
  | refused why =>
    refine ⟨?_, nofun⟩
    intro h
    cases why <;> cases a with
    | ok v => cases h
    | refused other => cases other <;> cases h

theorem under_eq_ok {a : Decoded α} {s : PathStep} {v : α} : a.under s = .ok v ↔ a = .ok v := by
  cases a with
  | ok v => rfl
  | refused why => cases why <;> exact ⟨nofun, nofun⟩

theorem andThen_eq_ok {a : Decoded α} {f : α → Decoded β} {b : β} :
    a.andThen f = .ok b ↔ ∃ v, a = .ok v ∧ f v = .ok b := by
  cases a with
  | ok v => simp
  | refused why => exact ⟨nofun, nofun⟩

/-- Everything that comes of a reading has a property. -/
def Yields (a : Decoded α) (P : α → Prop) : Prop := ∀ v, a = .ok v → P v

theorem yields_map {f : α → β} {a : Decoded α} {P : β → Prop} (h : ∀ v, a = .ok v → P (f v)) :
    (f <$> a).Yields P := by
  intro b hb
  obtain ⟨v, hv, rfl⟩ := fmap_eq_ok.mp hb
  exact h v hv

theorem yields_seq {f : Decoded (α → β)} {a : Decoded α} {P : β → Prop}
    (h : f.Yields fun g => ∀ v, a = .ok v → P (g v)) : (f <*> a).Yields P := by
  intro b hb
  obtain ⟨g, hg, v, hv, rfl⟩ := seq_eq_ok.mp hb
  exact h g hg v hv

end Decoded

namespace Decode

open Decoded

/-- Reading a document gives back what was written as it. -/
def Restores (dec : Json → Decoded α) (enc : α → Json) : Prop := ∀ v, dec (enc v) = .ok v

/-- What comes of a reading is written so that reading again gives it back. -/
def Rereads (dec again : Json → Decoded α) (enc : α → Json) : Prop :=
  ∀ j v, dec j = .ok v → again (enc v) = .ok v

variable {dec again : Json → Decoded α} {enc : α → Json}

theorem Restores.rereads (h : Restores again enc) : Rereads dec again enc := fun _ v _ => h v

@[simp] theorem text_str (s : String) : text (.str s) = .ok s := rfl

@[simp] theorem whole_int (n : Int) : whole (.int n) = .ok n := rfl

@[simp] theorem number_float (x : Float) : number (.float x) = .ok x := rfl

@[simp] theorem boolean_bool (b : Bool) : boolean (.bool b) = .ok b := rfl

theorem restores_text : Restores text .str := text_str

theorem restores_whole : Restores whole .int := whole_int

theorem restores_number : Restores number .float := number_float

theorem restores_boolean : Restores boolean .bool := boolean_bool

theorem restores_moment : Restores moment Encode.moment := by
  intro m
  rw [Encode.moment, moment, Moment.read_text]

/-- Every word is found by its name, so no two words have one name. -/
def NamesWords (α : Type) [Vocabulary α] : Prop :=
  ∀ w : α, Vocabulary.ofName? (Vocabulary.name w) = some w

theorem restores_word [Vocabulary α] (h : NamesWords α) :
    Restores (word : Json → Decoded α) Encode.word := by
  intro w
  rw [Encode.word, word, h w]

theorem optional_of_ne_null {j : Json} (h : j ≠ .null) (dec : Json → Decoded α) :
    optional dec j = some <$> dec j := by
  cases j with
  | null => exact absurd rfl h
  | _ => rfl

theorem Rereads.optional (h : Rereads dec again enc) (filled : ∀ v, enc v ≠ .null) :
    Rereads (optional dec) (optional again) (Encode.optional enc) := by
  intro j v hv
  cases v with
  | none => rfl
  | some v =>
    have present : j ≠ .null := by
      rintro rfl
      cases hv
    rw [optional_of_ne_null present] at hv
    obtain ⟨w, hw, same⟩ := fmap_eq_ok.mp hv
    cases same
    rw [Encode.optional, optional_of_ne_null (filled v), h j v hw]
    rfl

theorem Restores.optional (h : Restores dec enc) (filled : ∀ v, enc v ≠ .null) :
    Restores (optional dec) (Encode.optional enc) := by
  intro v
  cases v with
  | none => rfl
  | some v =>
    rw [Encode.optional, optional_of_ne_null (filled v), h v]
    rfl

theorem text_eq_ok {j : Json} {s : String} : text j = .ok s ↔ j = .str s := by
  cases j <;> simp [text, fault]

/-- All items are read if each of them is. -/
theorem itemsFrom_eq_ok {items : List Json} {vs : List α} {i : Nat} :
    itemsFrom dec i items = .ok vs ↔ items.map dec = vs.map .ok := by
  induction items generalizing i vs with
  | nil =>
    cases vs with
    | nil => simp [itemsFrom]
    | cons v vs => simp [itemsFrom]
  | cons j rest ih =>
    simp only [itemsFrom, seq_eq_ok, fmap_eq_ok, under_eq_ok, ih, List.map_cons]
    constructor
    · rintro ⟨_, ⟨v, hv, rfl⟩, vs, hvs, rfl⟩
      rw [hv, hvs, List.map_cons]
    · intro h
      cases vs with
      | nil => cases h
      | cons v vs =>
        obtain ⟨hv, hvs⟩ := List.cons.inj h
        exact ⟨_, ⟨v, hv, rfl⟩, vs, hvs, rfl⟩

/-- Items that can all be read have a list of values. -/
theorem exists_map_eq {items : List Json} (h : ∀ j ∈ items, ∃ v, dec j = .ok v) :
    ∃ vs : List α, items.map dec = vs.map .ok := by
  induction items with
  | nil => exact ⟨[], rfl⟩
  | cons j rest ih =>
    obtain ⟨⟨v, hv⟩, others⟩ := List.forall_mem_cons.mp h
    obtain ⟨vs, hvs⟩ := ih others
    exact ⟨v :: vs, by rw [List.map_cons, List.map_cons, hv, hvs]⟩

/-- Items are read back if each of them is. -/
theorem itemsFrom_map {vs : List α} (h : ∀ v ∈ vs, dec (enc v) = .ok v) (i : Nat) :
    itemsFrom dec i (vs.map enc) = .ok vs := by
  rw [itemsFrom_eq_ok, List.map_map]
  exact List.map_congr_left h

/-- Every item that was read has a document of its own. -/
theorem exists_of_itemsFrom {items : List Json} {vs : List α} {i : Nat}
    (h : itemsFrom dec i items = .ok vs) : ∀ v ∈ vs, ∃ j, dec j = .ok v := by
  intro v hv
  have read : .ok v ∈ items.map dec := itemsFrom_eq_ok.mp h ▸ List.mem_map_of_mem hv
  obtain ⟨j, -, hj⟩ := List.mem_map.mp read
  exact ⟨j, hj⟩

theorem yields_list {P : α → Prop} (h : ∀ j, (dec j).Yields P) (j : Json) :
    (list dec j).Yields fun vs => ∀ v ∈ vs, P v := by
  cases j with
  | arr items =>
    intro vs read v hv
    obtain ⟨j, hj⟩ := exists_of_itemsFrom read v hv
    exact h j v hj
  | _ => exact nofun

theorem Restores.list (h : Restores dec enc) : Restores (list dec) (Encode.list enc) :=
  fun _ => itemsFrom_map (fun v _ => h v) 0

theorem Rereads.list (h : Rereads dec again enc) :
    Rereads (list dec) (list again) (Encode.list enc) := by
  intro j vs hvs
  exact itemsFrom_map (yields_list h j vs hvs) 0

theorem membersFrom_map {ms : Members α} (h : ∀ m ∈ ms, dec (enc m.2) = .ok m.2) :
    membersFrom dec (ms.map fun m => (m.1, enc m.2)) = .ok ms := by
  induction ms with
  | nil => rfl
  | cons m rest ih =>
    obtain ⟨first, others⟩ := List.forall_mem_cons.mp h
    rw [List.map_cons, membersFrom, first, ih others]
    rfl

theorem exists_of_membersFrom {members : Members Json} {ms : Members α}
    (h : membersFrom dec members = .ok ms) : ∀ m ∈ ms, ∃ j, dec j = .ok m.2 := by
  induction members generalizing ms with
  | nil =>
    cases h
    exact nofun
  | cons member rest ih =>
    obtain ⟨_, hfirst, others, hrest, rfl⟩ := seq_eq_ok.mp h
    obtain ⟨first, hj, rfl⟩ := fmap_eq_ok.mp hfirst
    obtain ⟨v, hv, rfl⟩ := fmap_eq_ok.mp hj
    rw [under_eq_ok] at hv
    exact List.forall_mem_cons.mpr ⟨⟨member.2, hv⟩, ih hrest⟩

theorem yields_mapping {P : α → Prop} (h : ∀ j, (dec j).Yields P) (j : Json) :
    (mapping dec j).Yields fun ms => ∀ m ∈ ms, P m.2 := by
  cases j with
  | obj members =>
    intro ms read m hm
    obtain ⟨j, hj⟩ := exists_of_membersFrom read m hm
    exact h j m.2 hj
  | _ => exact nofun

theorem Restores.mapping (h : Restores dec enc) :
    Restores (mapping dec) (Encode.mapping enc) :=
  fun _ => membersFrom_map fun m _ => h m.2

theorem Rereads.mapping (h : Rereads dec again enc) :
    Rereads (mapping dec) (mapping again) (Encode.mapping enc) := by
  intro j ms hms
  exact membersFrom_map (yields_mapping h j ms hms)

/-- Documents that are kept as they are come back as they are. -/
theorem restores_documents : Restores (mapping .ok) .obj := by
  intro ms
  have kept : membersFrom .ok (ms.map fun m => (m.1, id m.2)) = .ok ms :=
    membersFrom_map fun _ _ => rfl
  have same : (ms.map fun m => (m.1, id m.2)) = ms := List.map_id ms
  rw [same] at kept
  exact kept

@[simp] theorem moment_encode (m : Moment) : moment (Encode.moment m) = .ok m := restores_moment m

@[simp] theorem optional_text (v : Option String) :
    optional text (Encode.optional .str v) = .ok v := restores_text.optional nofun v

@[simp] theorem optional_whole (v : Option Int) :
    optional whole (Encode.optional .int v) = .ok v := restores_whole.optional nofun v

@[simp] theorem optional_number (v : Option Float) :
    optional number (Encode.optional .float v) = .ok v := restores_number.optional nofun v

@[simp] theorem optional_moment (v : Option Moment) :
    optional moment (Encode.optional Encode.moment v) = .ok v :=
  restores_moment.optional (fun _ => nofun) v

@[simp] theorem list_text (ss : List String) : list text (Encode.list .str ss) = .ok ss :=
  restores_text.list ss

@[simp] theorem mapping_number (ms : Members Float) :
    mapping number (Encode.mapping .float ms) = .ok ms := restores_number.mapping ms

@[simp] theorem mapping_boolean (ms : Members Bool) :
    mapping boolean (Encode.mapping .bool ms) = .ok ms := restores_boolean.mapping ms

@[simp] theorem mapping_documents (ms : Members Json) : mapping .ok (.obj ms) = .ok ms :=
  restores_documents ms

theorem yields_record {dec : Members Json → Decoded α} {P : α → Prop}
    (h : ∀ ms, (dec ms).Yields P) (j : Json) : (record dec j).Yields P := by
  cases j with
  | obj ms => exact h ms
  | _ => exact nofun

variable {ms : Members Json} {names : List String} {default v : α}

theorem yields_field {P : α → Prop} (h : ∀ j, (dec j).Yields P) (standard : P default) :
    (Decode.field ms names dec default).Yields P := by
  intro v hv
  unfold Decode.field at hv
  split at hv
  · next j _ => exact h j v (under_eq_ok.mp hv)
  · cases hv
    exact standard

/-- What came of a field is read again if its default is. -/
theorem Rereads.field (h : Rereads dec again enc) (standard : again (enc default) = .ok default)
    (hv : Decode.field ms names dec default = .ok v) : again (enc v) = .ok v :=
  yields_field (P := fun v => again (enc v) = .ok v) h standard v hv

end Decode

end EntityRules
