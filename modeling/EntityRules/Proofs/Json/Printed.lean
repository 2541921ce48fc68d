import EntityRules.Proofs.Json.Reordered

/-! Which documents have a canonical text, and what the text tells of a document. -/

namespace EntityRules.Json

variable {a b : Json} {room : Nat}

mutual

/-- Whether a document can be written with some levels inside each other: none of its whole numbers
has too many digits, and its lists and objects go no deeper. -/
def isWritable : Nat → Json → Bool
  | _, .int n => !isLong n
  | 0, .arr _ | 0, .obj _ => false
  | room + 1, .arr items => areWritable room items
  | room + 1, .obj members => areMembersWritable room members
  | _, _ => true

def areWritable (room : Nat) : List Json → Bool
  | [] => true
  | j :: rest => isWritable room j && areWritable room rest

def areMembersWritable (room : Nat) : Members Json → Bool
  | [] => true
  | (_, j) :: rest => isWritable room j && areMembersWritable room rest

end

def Writable (room : Nat) (j : Json) : Prop := j.isWritable room = true

instance (room : Nat) (j : Json) : Decidable (Writable room j) :=
  inferInstanceAs (Decidable (_ = true))

theorem writable_null : Writable room .null := by cases room <;> rfl

theorem writable_bool (t : Bool) : Writable room (.bool t) := by cases room <;> rfl

theorem writable_float (x : Float) : Writable room (.float x) := by cases room <;> rfl

theorem writable_str (s : String) : Writable room (.str s) := by cases room <;> rfl

theorem writable_int_iff {n : Int} : Writable room (.int n) ↔ isLong n = false := by
  cases room <;> simp [Writable, isWritable]

theorem writable_arr_iff {items : List Json} :
    Writable (room + 1) (.arr items) ↔ ∀ j ∈ items, Writable room j := by
  change areWritable room items = true ↔ _
  induction items with
  | nil => exact iff_of_true rfl nofun
  | cons j rest ih => rw [areWritable, Bool.and_eq_true, ih, List.forall_mem_cons, Writable]

theorem writable_obj_iff {members : Members Json} :
    Writable (room + 1) (.obj members) ↔ ∀ m ∈ members, Writable room m.2 := by
  change areMembersWritable room members = true ↔ _
  induction members with
  | nil => exact iff_of_true rfl nofun
  | cons m rest ih => rw [areMembersWritable, Bool.and_eq_true, ih, List.forall_mem_cons, Writable]

theorem writable_obj_nil : Writable (room + 1) (.obj []) := rfl

theorem writable_obj_cons {m : String × Json} {rest : Members Json} :
    Writable (room + 1) (.obj (m :: rest)) ↔ Writable room m.2 ∧ Writable (room + 1) (.obj rest) := by
  simp only [writable_obj_iff, List.forall_mem_cons]

theorem obstaclesOfItems_eq (room : Nat) (items : List Json) :
    obstaclesOfItems room items = items.map (obstacle room) := by
  induction items with
  | nil => rfl
  | cons j rest ih => rw [obstaclesOfItems, ih, List.map_cons]

theorem obstaclesOfMembers_eq (room : Nat) (members : Members Json) :
    obstaclesOfMembers room members = members.map fun m => (m.1, m.2.obstacle room) := by
  induction members with
  | nil => rfl
  | cons m rest ih => rw [obstaclesOfMembers, ih, List.map_cons]

theorem obstacle_arr_eq_none_iff {items : List Json} :
    obstacle (room + 1) (.arr items) = none ↔ ∀ j ∈ items, j.obstacle room = none := by
  rw [obstacle, obstaclesOfItems_eq, List.findSome?_eq_none_iff]
  simp

/-- The order in which members are looked at does not matter for whether there is an obstacle. -/
theorem obstacle_obj_eq_none_iff {members : Members Json} :
    obstacle (room + 1) (.obj members) = none ↔ ∀ m ∈ members, m.2.obstacle room = none := by
  have same : ∀ o, o ∈ sorted (obstaclesOfMembers room members) ↔
      o ∈ members.map fun m => (m.1, m.2.obstacle room) := by
    intro o
    rw [← obstaclesOfMembers_eq]
    exact (sorted_perm _).mem_iff
  rw [obstacle, List.findSome?_eq_none_iff]
  simp only [same, List.forall_mem_map]

mutual

theorem obstacle_eq_none_iff : ∀ (room : Nat) (j : Json), j.obstacle room = none ↔ Writable room j
  | room, .null => iff_of_true (by cases room <;> rfl) writable_null
  | room, .bool _ => iff_of_true (by cases room <;> rfl) (writable_bool _)
  | room, .float _ => iff_of_true (by cases room <;> rfl) (writable_float _)
  | room, .str _ => iff_of_true (by cases room <;> rfl) (writable_str _)
  | room, .int n => by
    rw [writable_int_iff]
    cases room <;> simp [obstacle]
  | 0, .arr _ => iff_of_false nofun nofun
  | 0, .obj _ => iff_of_false nofun nofun
  | room + 1, .arr items => by
    rw [obstacle_arr_eq_none_iff, obstacles_items_iff room items, writable_arr_iff]
  | room + 1, .obj members => by
    rw [obstacle_obj_eq_none_iff, obstacles_members_iff room members, writable_obj_iff]

theorem obstacles_items_iff (room : Nat) : ∀ items : List Json,
    (∀ j ∈ items, j.obstacle room = none) ↔ ∀ j ∈ items, Writable room j
  | [] => by simp
  | j :: rest => by
    rw [List.forall_mem_cons, List.forall_mem_cons, obstacle_eq_none_iff room j,
      obstacles_items_iff room rest]

theorem obstacles_members_iff (room : Nat) : ∀ members : Members Json,
    (∀ m ∈ members, m.2.obstacle room = none) ↔ ∀ m ∈ members, Writable room m.2
  | [] => by simp
  | (_, j) :: rest => by
    rw [List.forall_mem_cons, List.forall_mem_cons, obstacle_eq_none_iff room j,
      obstacles_members_iff room rest]

end

/-- What comes first of what keeps a document from being written does not depend on the order of
members: they are looked at in the order of their names. -/
theorem Reordered.obstacle_eq (h : Reordered a b) (distinct : a.HasDistinctNames) (room : Nat) :
    a.obstacle room = b.obstacle room := by
  induction h generalizing room with
  | refl => rfl
  | trans first _ ih ih' => exact (ih distinct room).trans (ih' (first.hasDistinctNames distinct) room)
  | @members ms ms' same =>
    cases room with
    | zero => rfl
    | succ room =>
      cases distinct with
      | scalar parts => cases parts
      | obj nodup _ =>
        have names : (Members.names (ms.map fun m => (m.1, m.2.obstacle room))).Nodup := by
          rwa [Members.names, List.map_map]
        have same_order : sorted (ms.map fun m => (m.1, m.2.obstacle room)) =
            sorted (ms'.map fun m => (m.1, m.2.obstacle room)) := sorted_eq_of_perm (same.map _) names
        rw [obstacle, obstacle, obstaclesOfMembers_eq, obstaclesOfMembers_eq, same_order]
  | item front back _ ih =>
    cases room with
    | zero => rfl
    | succ room =>
      cases distinct with
      | scalar parts => cases parts
      | arr inside =>
        have middle := ih (inside _ (by simp)) room
        simp only [obstacle, obstaclesOfItems_eq, List.map_append, List.map_cons, middle]
  | value front back name _ ih =>
    cases room with
    | zero => rfl
    | succ room =>
      cases distinct with
      | scalar parts => cases parts
      | obj _ inside =>
        have middle := ih (inside (name, _) (by simp)) room
        simp only [obstacle, obstaclesOfMembers_eq, List.map_append, List.map_cons, middle]

theorem print_eq_ok_iff {text : String} :
    a.print room = .ok text ↔ Writable room a ∧ a.canonical = text := by
  rw [print, ← obstacle_eq_none_iff]
  cases a.obstacle room <;> simp

theorem Writable.print (h : Writable room a) : a.print room = .ok a.canonical :=
  print_eq_ok_iff.mpr ⟨h, rfl⟩

mutual

/-- A document with all its texts emptied. -/
def blanked : Json → Json
  | .str _ => .str ""
  | .arr items => .arr (blankedItems items)
  | .obj members => .obj (blankedMembers members)
  | j => j

def blankedItems : List Json → List Json
  | [] => []
  | j :: rest => blanked j :: blankedItems rest

def blankedMembers : Members Json → Members Json
  | [] => []
  | (name, j) :: rest => (name, blanked j) :: blankedMembers rest

end

theorem blankedItems_eq (items : List Json) : blankedItems items = items.map blanked := by
  induction items with
  | nil => rfl
  | cons j rest ih => rw [blankedItems, ih, List.map_cons]

mutual

/-- Texts do not keep a document from being written. -/
theorem obstacle_blanked : ∀ (room : Nat) (j : Json), j.blanked.obstacle room = j.obstacle room
  | room, .null | room, .bool _ | room, .float _ | room, .int _ => rfl
  | room, .str _ => by cases room <;> rfl
  | 0, .arr _ | 0, .obj _ => rfl
  | room + 1, .arr items => by rw [blanked, obstacle, obstacle, obstacles_blankedItems room items]
  | room + 1, .obj members => by
    rw [blanked, obstacle, obstacle, obstacles_blankedMembers room members]

theorem obstacles_blankedItems (room : Nat) : ∀ items : List Json,
    obstaclesOfItems room (blankedItems items) = obstaclesOfItems room items
  | [] => rfl
  | j :: rest => by
    rw [blankedItems, obstaclesOfItems, obstaclesOfItems, obstacle_blanked room j,
      obstacles_blankedItems room rest]

theorem obstacles_blankedMembers (room : Nat) : ∀ members : Members Json,
    obstaclesOfMembers room (blankedMembers members) = obstaclesOfMembers room members
  | [] => rfl
  | (_, j) :: rest => by
    rw [blankedMembers, obstaclesOfMembers, obstaclesOfMembers, obstacle_blanked room j,
      obstacles_blankedMembers room rest]

end

theorem obstacle_eq_of_blanked (same : a.blanked = b.blanked) (room : Nat) :
    a.obstacle room = b.obstacle room := by
  rw [← obstacle_blanked room a, same, obstacle_blanked]

/-- The canonical text of a document. A document has one just if its whole numbers are not too long
and it does not go too deep, and whether and why not is the same for every order of its members. Two
documents have one text just if they are the same up to the order of members. Whole numbers,
doubles, truth values, texts and null are all told apart, and so are the two zeros. -/
theorem print_iff_reordered (room : Nat) (distinct : a.HasDistinctNames) :
    ((∃ text, a.print room = .ok text) ↔ Writable room a) ∧
    (∀ b, a.Reordered b → a.print room = b.print room) ∧
    (∀ text b, a.print room = .ok text →
      (b.print room = .ok text ↔ a.Reordered b) ∧
      (a.isContainer = false → (b.print room = .ok text ↔ a = b))) ∧
    (Json.float 0.0).print room ≠ (Json.float (-0.0)).print room := by
  have along : ∀ b, a.Reordered b → a.print room = b.print room := by
    intro b same
    rw [Json.print, Json.print, same.obstacle_eq distinct,
      canonical_eq_iff.mpr ((reordered_iff distinct).mp same)]
  refine ⟨?_, along, ?_, ?_⟩
  · exact ⟨fun ⟨text, h⟩ => (print_eq_ok_iff.mp h).1, fun h => ⟨_, h.print⟩⟩
  · intro text b written
    have same_iff : b.print room = .ok text ↔ a.Reordered b := by
      refine ⟨fun written' => ?_, fun same => (along b same).symm.trans written⟩
      obtain ⟨-, told⟩ := print_eq_ok_iff.mp written
      obtain ⟨-, told'⟩ := print_eq_ok_iff.mp written'
      exact (reordered_iff distinct).mpr (canonical_eq_iff.mp (told.trans told'.symm))
    refine ⟨same_iff, fun plain => same_iff.trans ⟨fun same => ?_, fun same => same ▸ .refl a⟩⟩
    exact eq_of_arranged plain ((reordered_iff distinct).mp same)
  · have zeros : (0.0 : Float) ≠ -0.0 := by decide
    intro same
    have written : ∀ x, (Json.float x).print room = .ok (Json.float x).canonical :=
      fun x => (writable_float x).print
    rw [written, written] at same
    exact zeros (Json.float.inj (canonical_eq_iff.mp (Except.ok.inj same)))

namespace Sample

/-- A document with one object inside another one. -/
def nested (first second : String × Json) : Json :=
  .obj [("b", .arr [.float 1, .obj [first, second]]), ("a", .int 1)]

theorem nested_hasDistinctNames :
    (nested ("y", .float 0) ("x", .null)).HasDistinctNames := by
  refine .obj (by decide) (List.forall_mem_cons.mpr ⟨.arr ?_, by simpa using .scalar rfl⟩)
  refine List.forall_mem_cons.mpr ⟨.scalar rfl, List.forall_mem_singleton.mpr ?_⟩
  refine .obj (by decide) ?_
  simpa using ⟨.scalar rfl, .scalar rfl⟩

theorem nested_reordered (first second : String × Json) :
    (nested first second).Reordered (nested second first) :=
  .value [] [("a", .int 1)] "b" (.item [.float 1] [] (.members (.swap second first [])))

/-- The least whole number that has no text. -/
def long : Json := .int (Int.pow 10 Number.mostDigits)

end Sample

/-- With room for three levels the document is written, whatever the order inside; a whole number is
not written like the double of the same value. -/
theorem print_iff_reordered_nested :
    (∃ text, (Sample.nested ("y", .float 0) ("x", .null)).print 3 = .ok text ∧
      (Sample.nested ("x", .null) ("y", .float 0)).print 3 = .ok text) ∧
    (Json.int 1).print 0 ≠ (Json.float 1).print 0 := by
  obtain ⟨written_iff, along, -, -⟩ := print_iff_reordered 3 Sample.nested_hasDistinctNames
  obtain ⟨text, written⟩ := written_iff.mpr (by decide +kernel)
  refine ⟨⟨text, written, along _ (Sample.nested_reordered _ _) ▸ written⟩, fun same => ?_⟩
  have one : (Json.int 1).print 0 = .ok (Json.int 1).canonical :=
    Writable.print (by decide +kernel)
  obtain ⟨-, -, told, -⟩ := print_iff_reordered (a := .int 1) 0 (.scalar rfl)
  cases ((told _ _ one).2 rfl).mp (same.symm.trans one)

/-- A whole number of one digit too many has no canonical text, though it is equal to itself. -/
theorem print_long : ¬ ∀ a b : Json, a.HasDistinctNames →
    ((∃ text, a.print 900 = .ok text ∧ b.print 900 = .ok text) ↔ a.Reordered b) := by
  intro claim
  obtain ⟨text, written, -⟩ := (claim Sample.long Sample.long (.scalar rfl)).mpr (.refl _)
  have obstacle : Sample.long.obstacle 900 = some .tooLong := by decide +kernel
  rw [Json.print, obstacle] at written
  cases written

end EntityRules.Json
