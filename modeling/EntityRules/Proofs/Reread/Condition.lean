import EntityRules.Proofs.Reread.Field
import EntityRules.Proofs.Condition
import EntityRules.Proofs.Members

/-! Conditions that are read back. -/

namespace EntityRules.Condition

open Decode Decoded

variable {room : Nat} {tag : Tag} {c : Condition} {common : Common} {ms : Members Json}

@[simp] theorem arr_encodeAll (cs : List Condition) :
    .arr (encodeAll cs) = Encode.list encode cs := by
  rw [Encode.list]
  congr 1
  induction cs with
  | nil => rfl
  | cons c rest ih => rw [encodeAll, ih, List.map_cons]

theorem decodeItems_eq (room i : Nat) (items : List Json) :
    decodeItems room i items = itemsFrom (decodeWithin room) i items := by
  induction items generalizing i with
  | nil => rw [decodeItems, itemsFrom]
  | cons j rest ih => rw [decodeItems, itemsFrom, ih]

theorem decodeChildren_eq (room : Nat) : decodeChildren room = list (decodeWithin room) := by
  funext j
  cases j with
  | arr items => rw [decodeChildren, decodeItems_eq, list]
  | _ => rfl

/-- Children are read as a field is. -/
theorem childrenFrom_eq (room : Nat) (ms : Members Json) :
    childrenFrom room ms = field ms ["conditions"] (list (decodeWithin room)) [] := by
  induction ms with
  | nil => rw [childrenFrom, field, firstPresent, Members.get?_nil, firstPresent]
  | cons m rest ih =>
    by_cases h : m.1 = "conditions"
    · rw [childrenFrom, if_pos h, decodeChildren_eq]
      simp [field, firstPresent, Members.get?_cons, h]
    · rw [childrenFrom, if_neg h, ih]
      simp [field, firstPresent, Members.get?_cons, h]

/-- The further members of a condition have no names of fields. -/
def Common.Fits (tag : Tag) (common : Common) : Prop := ∀ m ∈ common.extras, m.1 ∉ tag.fields

theorem fits_of_commonFrom (h : commonFrom tag ms = .ok common) : common.Fits tag := by
  simp only [commonFrom, seq_eq_ok, fmap_eq_ok] at h
  obtain ⟨_, ⟨_, ⟨_, -, rfl⟩, _, -, rfl⟩, _, -, rfl⟩ := h
  intro m hm
  simpa using (List.mem_filter.mp hm).2

theorem mem_fields_of_mem_encode (tag : Tag) {m : String × Json} (hm : m ∈ common.encode) :
    m.1 ∈ tag.fields := by
  simp only [Common.encode, List.mem_cons, List.not_mem_nil, or_false] at hm
  rcases hm with rfl | rfl | rfl <;> cases tag <;> simp [Tag.fields]

/-- Behind the members of its fields, a condition's further members are found again. -/
theorem commonFrom_encode (fits : common.Fits tag) {fields : Members Json}
    (own : ∀ m ∈ fields, m.1 ∈ tag.fields) :
    commonFrom tag (common.encode ++ fields ++ common.extras) = .ok common := by
  have before : ∀ m ∈ common.encode ++ fields, m.1 ∈ tag.fields := by
    intro m hm
    rcases List.mem_append.mp hm with hm | hm
    · exact mem_fields_of_mem_encode tag hm
    · exact own m hm
  rw [commonFrom, Members.filter_append_of_names before fits]
  simp [Common.encode, field, firstPresent, Members.get?_cons]

theorem exists_members {j : Json} (h : decodeWithin (room + 1) j = .ok c) : ∃ ms, j = .obj ms := by
  cases j with
  | obj ms => exact ⟨ms, rfl⟩
  | _ =>
    simp only [decodeWithin, under_eq_ok] at h
    cases h

theorem decodeWithin_obj : decodeWithin (room + 1) (.obj ms) = .ok c ↔
    ofMembers (Tag.ofDocument (.obj ms)) ms (childrenFrom room ms) = .ok c := by
  rw [decodeWithin, under_eq_ok]

/-- The type that a condition is written with stands behind what all conditions carry. -/
theorem ofDocument_encode (common : Common) (type : Json) (fields : Members Json) :
    Tag.ofDocument (.obj (common.encode ++ ("type", type) :: fields ++ common.extras)) =
      Tag.ofType type := by
  simp [Tag.ofDocument, Json.member?, Common.encode, Members.get?_cons]

theorem reread_simple (fits : common.Fits .simple) (path operator : String) (value : Json) :
    decodeWithin (room + 1) (encode (.simple common path operator value)) =
      .ok (.simple common path operator value) := by
  have known : Tag.ofType (.str "simple") = .simple := rfl
  rw [encode, decodeWithin_obj, ofDocument_encode, known, ofMembers, commonFrom_encode fits]
  · simp [Common.encode, field, firstPresent, Members.get?_cons]
  · simp [Tag.fields]

theorem reread_compound (fits : common.Fits .compound) (operator : String)
    {children : List Condition}
    (inside : list (decodeWithin room) (Encode.list encode children) = .ok children) :
    decodeWithin (room + 1) (encode (.compound common operator children)) =
      .ok (.compound common operator children) := by
  have known : Tag.ofType (.str "compound") = .compound := rfl
  rw [encode, decodeWithin_obj, ofDocument_encode, known, ofMembers, commonFrom_encode fits,
    childrenFrom_eq, arr_encodeAll]
  · simp [Common.encode, field, firstPresent, Members.get?_cons, inside]
  · simp [Tag.fields]

theorem reread_function (fits : common.Fits .function) (name : String)
    (parameters : Members Json) :
    decodeWithin (room + 1) (encode (.function common name parameters)) =
      .ok (.function common name parameters) := by
  have known : Tag.ofType (.str "function") = .function := rfl
  rw [encode, decodeWithin_obj, ofDocument_encode, known, ofMembers, commonFrom_encode fits]
  · simp [Common.encode, field, firstPresent, Members.get?_cons]
  · simp [Tag.fields]

theorem reread_contextual (fits : common.Fits .contextual) (category : String)
    (data : Members Json) :
    decodeWithin (room + 1) (encode (.contextual common category data)) =
      .ok (.contextual common category data) := by
  have known : Tag.ofType (.str "contextual") = .contextual := rfl
  rw [encode, decodeWithin_obj, ofDocument_encode, known, ofMembers, commonFrom_encode fits]
  · simp [Common.encode, field, firstPresent, Members.get?_cons]
  · simp [Tag.fields]

theorem reread_unknown (fits : common.Fits .unknown) {type : Json}
    (unknown : Tag.ofType type = .unknown) :
    decodeWithin (room + 1) (encode (.unknown common type)) = .ok (.unknown common type) := by
  rw [encode, decodeWithin_obj, ofDocument_encode, unknown, ofMembers, commonFrom_encode fits]
  · simp [Common.encode, Members.get?_cons]
  · simp [Tag.fields]

/-- What was read as a condition is read again from its own document. -/
theorem decodeWithin_encode {j : Json} (h : decodeWithin room j = .ok c) :
    decodeWithin room (encode c) = .ok c := by
  -- A child was read with room for one condition less, so its document fits there again.
  induction room generalizing j c with
  | zero =>
    rw [decodeWithin, under_eq_ok] at h
    cases h
  | succ room ih =>
    obtain ⟨ms, rfl⟩ := exists_members h
    rw [decodeWithin_obj] at h
    cases known : Tag.ofDocument (.obj ms) with
    | simple =>
      simp only [known, ofMembers, seq_eq_ok, fmap_eq_ok] at h
      obtain ⟨_, ⟨_, ⟨common, hcommon, rfl⟩, path, -, rfl⟩, operator, -, rfl⟩ := h
      exact reread_simple (fits_of_commonFrom hcommon) path operator _
    | compound =>
      simp only [known, ofMembers, seq_eq_ok, fmap_eq_ok] at h
      obtain ⟨_, ⟨_, ⟨common, hcommon, rfl⟩, operator, -, rfl⟩, children, hchildren, rfl⟩ := h
      have each : Rereads (decodeWithin room) (decodeWithin room) encode := fun _ _ => ih
      rw [childrenFrom_eq] at hchildren
      exact reread_compound (fits_of_commonFrom hcommon) operator (each.list.field rfl hchildren)
    | function =>
      simp only [known, ofMembers, seq_eq_ok, fmap_eq_ok] at h
      obtain ⟨_, ⟨_, ⟨common, hcommon, rfl⟩, name, -, rfl⟩, parameters, -, rfl⟩ := h
      exact reread_function (fits_of_commonFrom hcommon) name parameters
    | contextual =>
      simp only [known, ofMembers, seq_eq_ok, fmap_eq_ok] at h
      obtain ⟨_, ⟨_, ⟨common, hcommon, rfl⟩, category, -, rfl⟩, data, -, rfl⟩ := h
      exact reread_contextual (fits_of_commonFrom hcommon) category data
    | unknown =>
      simp only [known, ofMembers, fmap_eq_ok] at h
      obtain ⟨common, hcommon, rfl⟩ := h
      exact reread_unknown (fits_of_commonFrom hcommon) known

theorem rereads : Rereads decode decode encode := fun _ _ => decodeWithin_encode

end EntityRules.Condition
