import EntityRules.Proofs.Condition.Arranged

/-! Conditions in places inside other ones, told by the positions of the children on the way. -/

namespace EntityRules.Condition

open Decode Decoded

variable {room lower i : Nat} {path : List Nat} {ms : Members Json} {items : List Json}
  {document old new j : Json} {c d : Condition} {cs : List Condition}

/-- The documents of the children that a document of a composition lists. -/
def listed? : Json → Option (List Json)
  | .obj ms =>
    match Tag.ofDocument (.obj ms), Members.get? ms "conditions" with
    | .compound, some (.arr items) => some items
    | _, _ => none
  | _ => none

/-- The document of the condition in a place. -/
def documentAt? : Json → List Nat → Option Json
  | document, [] => some document
  | document, i :: path =>
    (listed? document).bind fun items => items[i]?.bind (documentAt? · path)

/-- A document of a condition with another document in a place. -/
def withDocumentAt (new : Json) : Json → List Nat → Json
  | _, [] => new
  | .obj ms, i :: path =>
    match Members.get? ms "conditions" with
    | some (.arr items) =>
      .obj (Members.put ms "conditions" (.arr (items.modify i (withDocumentAt new · path))))
    | _ => .obj ms
  | document, _ :: _ => document

/-- A condition with another condition in a place. -/
def withConditionAt (new : Condition) : Condition → List Nat → Condition
  | _, [] => new
  | .compound common operator children, i :: path =>
    .compound common operator (children.modify i (withConditionAt new · path))
  | c, _ :: _ => c

theorem documentAt?_cons (h : documentAt? document (i :: path) = some old) :
    ∃ ms items j, document = .obj ms ∧ Tag.ofDocument (.obj ms) = .compound ∧
      Members.get? ms "conditions" = some (.arr items) ∧ items[i]? = some j ∧
      documentAt? j path = some old := by
  obtain ⟨items, children, inside⟩ := Option.bind_eq_some_iff.mp h
  obtain ⟨j, stands, deeper⟩ := Option.bind_eq_some_iff.mp inside
  cases document with
  | obj ms =>
    simp only [listed?] at children
    split at children
    · next compound lists =>
      cases children
      exact ⟨ms, items, j, rfl, compound, lists, stands, deeper⟩
    · cases children
  | _ => cases children

theorem withDocumentAt_cons (lists : ms.get? "conditions" = some (.arr items)) :
    withDocumentAt new (.obj ms) (i :: path) =
      .obj (ms.put "conditions" (.arr (items.modify i (withDocumentAt new · path)))) := by
  rw [withDocumentAt, lists]

theorem decodeWithin_zero (j : Json) : decodeWithin 0 j ≠ .ok c := by
  intro read
  rw [decodeWithin, under_eq_ok] at read
  cases read

/-- Only a composition depends on its children. -/
theorem ofMembers_mono {tag : Tag} {children children' : Decoded (List Condition)}
    (h : ofMembers tag ms children = .ok c) (more : ∀ cs, children = .ok cs → children' = .ok cs) :
    ofMembers tag ms children' = .ok c := by
  cases tag with
  | compound =>
    obtain ⟨make, made, cs, inside, rfl⟩ := seq_eq_ok.mp h
    exact seq_eq_ok.mpr ⟨make, made, cs, more cs inside, rfl⟩
  | _ => exact h

theorem decodeWithin_succ (h : decodeWithin room j = .ok c) :
    decodeWithin (room + 1) j = .ok c := by
  induction room generalizing j c with
  | zero => exact absurd h (decodeWithin_zero j)
  | succ room ih =>
    obtain ⟨ms, rfl⟩ := exists_members h
    rw [decodeWithin_obj] at h ⊢
    refine ofMembers_mono h fun cs inside => ?_
    rw [childrenFrom_eq, field] at inside ⊢
    split at inside
    · next name j _ =>
      rw [under_eq_ok] at inside ⊢
      cases j with
      | arr items =>
        rw [list, itemsFrom_eq_ok] at inside ⊢
        refine (List.map_congr_left fun j hj => ?_).trans inside
        have read : decodeWithin room j ∈ cs.map .ok := inside ▸ List.mem_map_of_mem hj
        obtain ⟨d, -, hd⟩ := List.mem_map.mp read
        rw [← hd, ih hd.symm]
      | _ => cases inside
    · exact inside

/-- What can be read can be read with more room. -/
theorem decodeWithin_mono (h : decodeWithin lower j = .ok c) (le : lower ≤ room) :
    decodeWithin room j = .ok c := by
  induction le with
  | refl => exact h
  | step _ ih => exact decodeWithin_succ ih

/-- A condition of unknown type takes no more room than it needs for itself. -/
theorem decodeWithin_of_unknown {common : Common} {type : Json}
    (h : decode j = .ok (.unknown common type)) (room : Nat) :
    decodeWithin (room + 1) j = .ok (.unknown common type) := by
  obtain ⟨ms, rfl⟩ := exists_members h
  rw [decode, deepest, decodeWithin_obj] at h
  have unknown : Tag.ofDocument (.obj ms) = .unknown := (tag_of_ofMembers h).symm
  rw [decodeWithin_obj]
  rw [unknown] at h ⊢
  exact h

/-- Members of no field are found as before when a field is given a new value. -/
theorem filter_put (ms : Members Json) {name : String} {fields : List String} (own : name ∈ fields)
    (value : Json) :
    (ms.put name value).filter (·.1 ∉ fields) = ms.filter (·.1 ∉ fields) := by
  induction ms with
  | nil => simp [Members.put, own]
  | cons m rest ih =>
    rw [Members.put]
    split
    · next same => simp [same, own]
    · rw [List.filter_cons, List.filter_cons, ih]

theorem ofDocument_put (ms : Members Json) (j : Json) :
    Tag.ofDocument (.obj (ms.put "conditions" j)) = Tag.ofDocument (.obj ms) := by
  simp [Tag.ofDocument, Json.member?, Members.get?_put]

theorem commonFrom_put (ms : Members Json) (j : Json) :
    commonFrom .compound (ms.put "conditions" j) = commonFrom .compound ms := by
  have own : "conditions" ∈ Tag.fields .compound := by simp [Tag.fields]
  have extras := filter_put ms own j
  simp only [commonFrom, extras]
  simp [field, firstPresent, Members.get?_put]

/-- A composition that lists its children is read when all of them are, with one condition less of
room. -/
theorem decodeWithin_listing (compound : Tag.ofDocument (.obj ms) = .compound)
    (lists : ms.get? "conditions" = some (.arr items)) :
    decodeWithin (room + 1) (.obj ms) = .ok c ↔ ∃ common operator cs,
      commonFrom .compound ms = .ok common ∧ field ms ["operator"] text "" = .ok operator ∧
      items.map (decodeWithin room) = cs.map .ok ∧ .compound common operator cs = c := by
  have children : ∀ cs,
      childrenFrom room ms = .ok cs ↔ items.map (decodeWithin room) = cs.map .ok := by
    intro cs
    rw [childrenFrom_eq, field, firstPresent, lists]
    rw [under_eq_ok, list, itemsFrom_eq_ok]
  rw [decodeWithin_obj, compound]
  simp only [ofMembers, seq_eq_ok, fmap_eq_ok, children]
  constructor
  · rintro ⟨_, ⟨_, ⟨common, hc, rfl⟩, operator, ho, rfl⟩, cs, hcs, rfl⟩
    exact ⟨common, operator, cs, hc, ho, hcs, rfl⟩
  · rintro ⟨common, operator, cs, hc, ho, hcs, rfl⟩
    exact ⟨_, ⟨_, ⟨common, hc, rfl⟩, operator, ho, rfl⟩, cs, hcs, rfl⟩

/-- The same for a composition that is given other children. -/
theorem decodeWithin_put (compound : Tag.ofDocument (.obj ms) = .compound) :
    decodeWithin (room + 1) (.obj (ms.put "conditions" (.arr items))) = .ok c ↔
      ∃ common operator cs,
        commonFrom .compound ms = .ok common ∧ field ms ["operator"] text "" = .ok operator ∧
        items.map (decodeWithin room) = cs.map .ok ∧ .compound common operator cs = c := by
  have lists : (ms.put "conditions" (.arr items)).get? "conditions" = some (.arr items) := by
    rw [Members.get?_put, if_pos rfl]
  have operator : field (ms.put "conditions" (.arr items)) ["operator"] text "" =
      field ms ["operator"] text "" := by
    simp [field, firstPresent, Members.get?_put]
  rw [decodeWithin_listing ((ofDocument_put ms _).trans compound) lists, commonFrom_put, operator]

/-- A document that cannot be read makes every document unreadable that it is put into. -/
theorem not_decodeWithin_withDocumentAt (here : documentAt? document path = some old)
    (unreadable : ∀ c, decodeWithin room new ≠ .ok c) (le : lower ≤ room) (c : Condition) :
    decodeWithin lower (withDocumentAt new document path) ≠ .ok c := by
  induction path generalizing document lower c with
  | nil => exact fun read => unreadable c (decodeWithin_mono read le)
  | cons i path ih =>
    obtain ⟨ms, items, j, rfl, compound, lists, stands, deeper⟩ := documentAt?_cons here
    rw [withDocumentAt_cons lists]
    intro read
    cases lower with
    | zero => exact decodeWithin_zero _ read
    | succ lower =>
      obtain ⟨-, -, cs, -, -, all, -⟩ := (decodeWithin_put compound).mp read
      have child : (items.modify i (withDocumentAt new · path))[i]? =
          some (withDocumentAt new j path) := by
        rw [List.getElem?_modify_eq, stands]
        rfl
      have one : decodeWithin lower (withDocumentAt new j path) ∈ cs.map .ok :=
        all ▸ List.mem_map_of_mem (List.mem_of_getElem? child)
      obtain ⟨d, -, hd⟩ := List.mem_map.mp one
      exact ih deeper (Nat.le_of_succ_le le) d hd.symm

/-- Where one item is given another reading, the others keep theirs. -/
theorem map_modify {dec : Json → Decoded Condition} {f : Json → Json} {g : Condition → Condition}
    (read : items.map dec = cs.map .ok) (stands : items[i]? = some j)
    (here : ∀ c, dec j = .ok c → dec (f j) = .ok (g c)) :
    (items.modify i f).map dec = (cs.modify i g).map .ok := by
  induction items generalizing cs i with
  | nil => simp at stands
  | cons first rest ih =>
    cases cs with
    | nil => cases read
    | cons c cs =>
      obtain ⟨hc, others⟩ := List.cons.inj read
      cases i with
      | zero =>
        obtain rfl : first = j := by simpa using stands
        rw [List.modify_zero_cons, List.modify_zero_cons, List.map_cons, List.map_cons, here c hc,
          others]
      | succ i =>
        have later := ih others (by simpa using stands)
        rw [List.modify_succ_cons, List.modify_succ_cons, List.map_cons, List.map_cons, hc, later]

/-- A document that can be read anywhere is read in its place, and nothing else changes. -/
theorem decodeWithin_withDocumentAt (here : documentAt? document path = some old)
    (read : decodeWithin room document = .ok c)
    (anywhere : ∀ room, decodeWithin (room + 1) new = .ok d) :
    decodeWithin room (withDocumentAt new document path) = .ok (withConditionAt d c path) := by
  induction path generalizing document room c with
  | nil =>
    cases room with
    | zero => exact absurd read (decodeWithin_zero _)
    | succ room =>
      rw [withDocumentAt, withConditionAt]
      exact anywhere room
  | cons i path ih =>
    obtain ⟨ms, items, j, rfl, compound, lists, stands, deeper⟩ := documentAt?_cons here
    cases room with
    | zero => exact absurd read (decodeWithin_zero _)
    | succ room =>
      obtain ⟨common, operator, cs, hc, ho, all, rfl⟩ :=
        (decodeWithin_listing compound lists).mp read
      rw [withDocumentAt_cons lists, decodeWithin_put compound]
      exact ⟨common, operator, _, hc, ho, map_modify all stands fun c hc => ih deeper hc, rfl⟩

end EntityRules.Condition
