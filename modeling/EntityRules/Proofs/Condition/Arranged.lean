import EntityRules.Proofs.Json.Faithful

/-! What a condition says, apart from what it is called and from the order of members. -/

namespace EntityRules.Condition

open Decode Decoded

/-- A condition that was read from a document. -/
def IsRead (c : Condition) : Prop := ∃ room j, decodeWithin room j = .ok c

theorem tag_of_ofMembers {tag : Tag} {ms : Members Json} {children : Decoded (List Condition)}
    {c : Condition} (h : ofMembers tag ms children = .ok c) : c.tag = tag := by
  cases tag <;> simp only [ofMembers, seq_eq_ok, fmap_eq_ok] at h
  · obtain ⟨_, ⟨_, ⟨_, -, rfl⟩, _, -, rfl⟩, _, -, rfl⟩ := h
    rfl
  · obtain ⟨_, ⟨_, ⟨_, -, rfl⟩, _, -, rfl⟩, _, -, rfl⟩ := h
    rfl
  · obtain ⟨_, ⟨_, ⟨_, -, rfl⟩, _, -, rfl⟩, _, -, rfl⟩ := h
    rfl
  · obtain ⟨_, ⟨_, ⟨_, -, rfl⟩, _, -, rfl⟩, _, -, rfl⟩ := h
    rfl
  · obtain ⟨_, -, rfl⟩ := h
    rfl

/-- The document of a condition that was read tells its type. -/
theorem IsRead.tag {c : Condition} (h : c.IsRead) : Tag.ofDocument c.encode = c.tag := by
  obtain ⟨room, j, read⟩ := h
  have again := decodeWithin_encode read
  cases room with
  | zero =>
    rw [decodeWithin, under_eq_ok] at read
    cases read
  | succ room =>
    obtain ⟨ms, shape⟩ := exists_members again
    rw [shape, decodeWithin_obj] at again
    rw [shape, tag_of_ofMembers again]

theorem IsRead.child {common : Common} {operator : String} {children : List Condition}
    (h : IsRead (.compound common operator children)) : ∀ c ∈ children, c.IsRead := by
  obtain ⟨room, j, read⟩ := h
  cases room with
  | zero =>
    rw [decodeWithin, under_eq_ok] at read
    cases read
  | succ room =>
    obtain ⟨ms, rfl⟩ := exists_members read
    rw [decodeWithin_obj] at read
    have known : Tag.ofDocument (.obj ms) = .compound := (tag_of_ofMembers read).symm
    simp only [known, ofMembers, seq_eq_ok, fmap_eq_ok] at read
    obtain ⟨_, ⟨_, ⟨_, -, rfl⟩, _, -, rfl⟩, _, inside, same⟩ := read
    obtain ⟨-, -, rfl⟩ := Condition.compound.inj same
    rw [childrenFrom_eq] at inside
    exact yields_field (P := fun cs => ∀ c ∈ cs, c.IsRead)
      (yields_list fun j c read => ⟨room, j, read⟩) (List.forall_mem_nil _) _ inside

/-- A condition that is called nothing. -/
def unnamed : Common := ⟨none, none, none, []⟩

mutual

/-- A condition without what it is called, with the members of all documents in it sorted. -/
def arranged : Condition → Condition
  | .simple _ path operator value => .simple unnamed path operator value.arranged
  | .compound _ operator children => .compound unnamed operator (arrangedAll children)
  | .function _ name parameters =>
    .function unnamed name (Json.sorted (Json.arrangedMembers parameters))
  | .contextual _ category data =>
    .contextual unnamed category (Json.sorted (Json.arrangedMembers data))
  | .unknown _ type => .unknown unnamed type.arranged

def arrangedAll : List Condition → List Condition
  | [] => []
  | c :: rest => arranged c :: arrangedAll rest

end

theorem arrangedAll_eq (cs : List Condition) : arrangedAll cs = cs.map arranged := by
  induction cs with
  | nil => rfl
  | cons c rest ih => rw [arrangedAll, ih, List.map_cons]

theorem ofType_arranged (type : Json) : Tag.ofType type.arranged = Tag.ofType type := by
  cases type <;> rfl

/-- Documents that are the same up to order are of one type. -/
theorem ofDocument_congr {ms ms' : Members Json}
    (same : (Json.obj ms).arranged = (Json.obj ms').arranged) :
    Tag.ofDocument (.obj ms) = Tag.ofDocument (.obj ms') := by
  have still : ∀ type : Option Json,
      Tag.ofType ((type.map Json.arranged).getD .null) = Tag.ofType (type.getD .null) := by
    intro type
    cases type with
    | none => rfl
    | some type => exact ofType_arranged type
  change Tag.ofType ((ms.get? "type").getD .null) = Tag.ofType ((ms'.get? "type").getD .null)
  rw [← still (ms.get? "type"), Json.map_arranged_get? same, still]

theorem encode_eq_obj (c : Condition) : ∃ ms, c.encode = .obj ms := by
  cases c <;> rw [encode] <;> exact ⟨_, rfl⟩

theorem tag_eq {c c' : Condition} (read : c.IsRead) (read' : c'.IsRead)
    (same : c.encode.arranged = c'.encode.arranged) : c.tag = c'.tag := by
  obtain ⟨ms, shape⟩ := encode_eq_obj c
  obtain ⟨ms', shape'⟩ := encode_eq_obj c'
  rw [← read.tag, ← read'.tag, shape, shape']
  rw [shape, shape'] at same
  exact ofDocument_congr same

theorem map_eq_map_of {α β γ : Type} {f : α → β} {g : α → γ} {xs ys : List α}
    (h : xs.map f = ys.map f) (step : ∀ x ∈ xs, ∀ y ∈ ys, f x = f y → g x = g y) :
    xs.map g = ys.map g := by
  induction xs generalizing ys with
  | nil =>
    rw [List.map_nil, eq_comm, List.map_eq_nil_iff] at h
    rw [h]
  | cons x xs ih =>
    cases ys with
    | nil => cases h
    | cons y ys =>
      obtain ⟨first, others⟩ := List.cons.inj h
      rw [List.map_cons, List.map_cons, step x (by simp) y (by simp) first,
        ih others fun a ha b hb => step a (by simp [ha]) b (by simp [hb])]

/-- Conditions that were read say the same if their documents do. -/
theorem arranged_eq {c c' : Condition} (read : c.IsRead) (read' : c'.IsRead)
    (same : c.encode.arranged = c'.encode.arranged) : c.arranged = c'.arranged := by
  have tags := tag_eq read read' same
  induction c using inductionOn generalizing c' with
  | simple common path operator value =>
    cases c' with
    | simple common' path' operator' value' =>
      rw [encode, encode] at same
      obtain rfl : path = path' := Encode.faithful_str.member same "field" rfl rfl
      obtain rfl : operator = operator' := Encode.faithful_str.member same "operator" rfl rfl
      have literal : value.arranged = value'.arranged := Json.arranged_get? same "value" rfl rfl
      rw [arranged, arranged, literal]
    | _ => cases tags
  | compound common operator children ih =>
    cases c' with
    | compound common' operator' children' =>
      rw [encode, encode] at same
      obtain rfl : operator = operator' := Encode.faithful_str.member same "operator" rfl rfl
      have inside := Json.arranged_get? same "conditions" rfl rfl
      rw [arr_encodeAll, arr_encodeAll] at inside
      replace inside := Json.arr.inj inside
      rw [Json.arrangedItems_eq, Json.arrangedItems_eq, List.map_map, List.map_map] at inside
      have each : children.map arranged = children'.map arranged := by
        refine map_eq_map_of inside fun c hc c' hc' written => ?_
        exact ih c hc (read.child c hc) (read'.child c' hc') written
          (tag_eq (read.child c hc) (read'.child c' hc') written)
      rw [arranged, arranged, arrangedAll_eq, arrangedAll_eq, each]
    | _ => cases tags
  | function common name parameters =>
    cases c' with
    | function common' name' parameters' =>
      rw [encode, encode] at same
      obtain rfl : name = name' := Encode.faithful_str.member same "function_name" rfl rfl
      have inside := Json.obj.inj (Json.arranged_get? same "parameters" rfl rfl)
      rw [arranged, arranged, inside]
    | _ => cases tags
  | contextual common category data =>
    cases c' with
    | contextual common' category' data' =>
      rw [encode, encode] at same
      obtain rfl : category = category' := Encode.faithful_str.member same "context_type" rfl rfl
      have inside := Json.obj.inj (Json.arranged_get? same "context_data" rfl rfl)
      rw [arranged, arranged, inside]
    | _ => cases tags
  | unknown common type =>
    cases c' with
    | unknown common' type' =>
      rw [encode, encode] at same
      have types : type.arranged = type'.arranged := Json.arranged_get? same "type" rfl rfl
      rw [arranged, arranged, types]
    | _ => cases tags

end EntityRules.Condition
