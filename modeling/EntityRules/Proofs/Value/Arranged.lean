import EntityRules.Proofs.Json.Faithful
import EntityRules.Proofs.Number.Zero
import EntityRules.Proofs.Value.Path

/-! Values with the members of their objects sorted, and zero for a number that was not given. -/

namespace EntityRules.Value

open Members

mutual

/-- A value with the members of objects sorted, at every level; the fields of records keep their
order. -/
def arranged : Value → Value
  | .unset => .float 0
  | .arr items => .arr (arrangedItems items)
  | .obj ms => .obj (Json.sorted (arrangedMembers ms))
  | .record type fields => .record type (arrangedMembers fields)
  | v => v

def arrangedItems : List Value → List Value
  | [] => []
  | v :: rest => arranged v :: arrangedItems rest

def arrangedMembers : Members Value → Members Value
  | [] => []
  | (name, v) :: rest => (name, arranged v) :: arrangedMembers rest

end

theorem arrangedItems_eq (items : List Value) : arrangedItems items = items.map arranged := by
  induction items with
  | nil => rfl
  | cons v rest ih => rw [arrangedItems, ih, List.map_cons]

theorem arrangedMembers_eq (ms : Members Value) :
    arrangedMembers ms = ms.map fun m => (m.1, m.2.arranged) := by
  induction ms with
  | nil => rfl
  | cons m rest ih => rw [arrangedMembers, ih, List.map_cons]

theorem get?_arrangedMembers (ms : Members Value) (name : String) :
    get? (arrangedMembers ms) name = (ms.get? name).map arranged := by
  rw [arrangedMembers_eq, get?_map]

theorem names_arrangedMembers (ms : Members Value) : names (arrangedMembers ms) = names ms := by
  rw [arrangedMembers_eq, names, List.map_map]
  rfl

theorem ofItems_eq (items : List Json) : ofItems items = items.map ofJson := by
  induction items with
  | nil => rfl
  | cons j rest ih => rw [ofItems, ih, List.map_cons]

theorem ofMembers_eq (ms : Members Json) : ofMembers ms = ms.map fun m => (m.1, ofJson m.2) := by
  induction ms with
  | nil => rfl
  | cons m rest ih => rw [ofMembers, ih, List.map_cons]

mutual

/-- The value of a document is arranged as the document is. -/
theorem arranged_ofJson : ∀ j : Json, (ofJson j).arranged = ofJson j.arranged
  | .null | .bool _ | .int _ | .float _ | .str _ => rfl
  | .arr items => by
    rw [ofJson, arranged, Json.arranged, ofJson, arrangedItems_ofItems items]
  | .obj ms => by
    rw [ofJson, arranged, Json.arranged, ofJson, arrangedMembers_ofMembers ms, ofMembers_eq,
      ofMembers_eq, Json.sorted_map]

theorem arrangedItems_ofItems : ∀ items : List Json,
    arrangedItems (ofItems items) = ofItems (Json.arrangedItems items)
  | [] => rfl
  | j :: rest => by
    rw [ofItems, arrangedItems, Json.arrangedItems, ofItems, arranged_ofJson j,
      arrangedItems_ofItems rest]

theorem arrangedMembers_ofMembers : ∀ ms : Members Json,
    arrangedMembers (ofMembers ms) = ofMembers (Json.arrangedMembers ms)
  | [] => rfl
  | (name, j) :: rest => by
    rw [ofMembers, arrangedMembers, Json.arrangedMembers, ofMembers, arranged_ofJson j,
      arrangedMembers_ofMembers rest]

end

theorem sameLeaf_arranged_left (a b : Value) : sameLeaf a.arranged b = sameLeaf a b := by
  cases a with
  | unset =>
    rw [arranged, sameLeaf, sameLeaf]
    cases b.numeral? with
    | none => rfl
    | some n => exact Numeral.same_double_zero n
  | _ => rfl

theorem sameLeaf_arranged_right (a b : Value) : sameLeaf a b.arranged = sameLeaf a b := by
  cases b with
  | unset =>
    rw [arranged, sameLeaf, sameLeaf]
    cases a.numeral? with
    | none => cases a.plain <;> rfl
    | some n => exact Numeral.same_of_double_zero n
  | arr items =>
    rw [arranged, sameLeaf, sameLeaf]
    cases a.numeral? <;> cases a.plain <;> rfl
  | obj ms =>
    rw [arranged, sameLeaf, sameLeaf]
    cases a.numeral? <;> cases a.plain <;> rfl
  | record type fields =>
    rw [arranged, sameLeaf, sameLeaf]
    cases a.numeral? <;> cases a.plain <;> rfl
  | _ => rfl

theorem sameMembers_eq_all (ms ns : Members Value) :
    sameMembers ms ns = ms.all fun m => (get? ns m.1).any (same m.2) := by
  induction ms with
  | nil => rfl
  | cons m rest ih =>
    rw [sameMembers, ih, List.all_cons]
    cases get? ns m.1 <;> rfl

/-- Equality of members does not look at their order. -/
theorem sameMembers_sorted (ms ns : Members Value) :
    sameMembers (Json.sorted ms) (Json.sorted ns) = sameMembers ms ns := by
  simp only [sameMembers_eq_all, Json.get?_sorted]
  exact (Json.sorted_perm ms).all_eq

theorem length_sorted {α : Type} (ms : Members α) : (Json.sorted ms).length = ms.length :=
  (Json.sorted_perm ms).length_eq

theorem length_arrangedMembers (ms : Members Value) : (arrangedMembers ms).length = ms.length := by
  rw [arrangedMembers_eq, List.length_map]

mutual

/-- Values are equal exactly if they are equal when they are arranged. -/
theorem same_arranged : ∀ a b : Value, same a.arranged b.arranged = same a b
  | .arr xs, b => by
    cases b with
    | arr ys => exact sameItems_arranged xs ys
    | _ => rfl
  | .obj ms, b => by
    cases b with
    | obj ns =>
      simp only [arranged, same, sameMembers_sorted, length_sorted, length_arrangedMembers,
        sameMembers_arranged ms ns]
    | _ => rfl
  | .record s ms, b => by
    cases b with
    | record t ns =>
      simp only [arranged, same, length_arrangedMembers, sameMembers_arranged ms ns]
    | _ => rfl
  | .null, b => by simp only [arranged, same, sameLeaf_arranged_right]
  | .bool _, b => by simp only [arranged, same, sameLeaf_arranged_right]
  | .int _, b => by simp only [arranged, same, sameLeaf_arranged_right]
  | .float _, b => by simp only [arranged, same, sameLeaf_arranged_right]
  | .unset, b => by
    simp only [arranged, same, sameLeaf_arranged_right]
    exact sameLeaf_arranged_left .unset b
  | .str _, b => by simp only [arranged, same, sameLeaf_arranged_right]
  | .phase _, b => by simp only [arranged, same, sameLeaf_arranged_right]
  | .kind _, b => by simp only [arranged, same, sameLeaf_arranged_right]
  | .moment _, b => by simp only [arranged, same, sameLeaf_arranged_right]

theorem sameItems_arranged : ∀ xs ys : List Value,
    sameItems (arrangedItems xs) (arrangedItems ys) = sameItems xs ys
  | [], [] => rfl
  | [], _ :: _ => rfl
  | _ :: _, [] => rfl
  | x :: xs, y :: ys => by
    rw [arrangedItems, arrangedItems, sameItems, sameItems, same_arranged x y,
      sameItems_arranged xs ys]

theorem sameMembers_arranged : ∀ ms ns : Members Value,
    sameMembers (arrangedMembers ms) (arrangedMembers ns) = sameMembers ms ns
  | [], _ => rfl
  | (name, v) :: rest, ns => by
    rw [arrangedMembers, sameMembers, sameMembers, sameMembers_arranged rest ns,
      get?_arrangedMembers]
    cases get? ns name with
    | none => rfl
    | some w => simp only [Option.map_some, same_arranged v w]

end

theorem number?_arranged (v : Value) : v.arranged.number? = v.number? := by
  cases v with
  | unset =>
    have zero : Binary64.ofInt? 0 = some 0 := by decide
    simp only [arranged, number?, plain, zero]
  | _ => rfl

theorem numbers?_arranged (a b : Value) : numbers? a.arranged b.arranged = numbers? a b := by
  rw [numbers?, numbers?, number?_arranged, number?_arranged]

theorem looselySame_arranged (a b : Value) :
    looselySame a.arranged b.arranged = looselySame a b := by
  rw [looselySame, looselySame, same_arranged, numbers?_arranged]

theorem ordered_arranged (test : Float → Float → Bool) (a b : Value) :
    ordered test a.arranged b.arranged = ordered test a b := by
  rw [ordered, ordered, numbers?_arranged]

/-- A key is arranged as what it is made of, and the same values are none. -/
theorem key_arranged (v : Value) : key v.arranged = (key v).map arranged := by
  cases v <;> rfl

theorem isName_arranged (ns : List String) (v : Value) : isName ns v.arranged = isName ns v := by
  cases v <;> rfl

theorem isName_sorted {α : Type} (ms : Members α) (v : Value) :
    isName (names (Json.sorted ms)) v = isName (names ms) v := by
  have named : ∀ s, s ∈ names (Json.sorted ms) ↔ s ∈ names ms :=
    fun s => ((Json.sorted_perm ms).map _).mem_iff
  unfold isName
  split
  · exact decide_eq_decide.mpr (named _)
  · rfl

theorem same_plain_left (a b : Value) : same a.plain b = same a b := by
  cases a with
  | unset => simp only [plain, same, sameLeaf, numeral?]
  | phase p => simp only [plain, same, sameLeaf, numeral?]
  | kind k => simp only [plain, same, sameLeaf, numeral?]
  | _ => rfl

theorem same_plain_right (a b : Value) : same a b.plain = same a b := by
  cases b with
  | unset => cases a <;> rfl
  | phase p => cases a <;> rfl
  | kind k => cases a <;> rfl
  | _ => rfl

theorem any_same_arranged (items : List Value) (v : Value) :
    (arrangedItems items).any (same · v.arranged) = items.any (same · v) := by
  simp only [arrangedItems_eq, List.any_map, Function.comp_def, same_arranged]

theorem isItem?_arranged (v list : Value) : isItem? v.arranged list.arranged = isItem? v list := by
  cases list with
  | arr items =>
    simp only [arranged, isItem?, same_plain_left, same_plain_right, any_same_arranged]
  | _ => rfl

/-- The texts that a comparison looks at: the text of a literal as a part of the text of a value. -/
def textsRead (actual : Value) (op : Comparison) (expected : Value) : Option (String × String) :=
  match op, actual with
  | .contains, .null | .contains, .arr _ | .contains, .obj _ => none
  | .notContains, .null | .notContains, .arr _ | .notContains, .obj _ => none
  | .contains, v | .notContains, v => some (expected.text, v.text)
  | _, _ => none

/-- Whether a container that is no text holds an item does not depend on the order of members. -/
theorem holds_arranged {container item : Value}
    (inner : textsRead container .contains item = none) (filled : container ≠ .null) :
    holds container.arranged item.arranged = holds container item := by
  cases container with
  | null => exact absurd rfl filled
  | arr items =>
    rw [arranged, holds, holds, any_same_arranged]
  | obj ms =>
    rw [arranged, holds, holds, key_arranged]
    cases key item with
    | error t => rfl
    | ok v =>
      change Except.ok _ = Except.ok _
      rw [isName_arranged, isName_sorted, names_arrangedMembers]
  | _ => cases inner

/-- What a comparison does with a value that is not null. -/
theorem compare_filled {a : Value} (filled : a ≠ .null) (op : Comparison) (b : Value) :
    compare a op b =
      match op with
      | .equals => looselySame a b
      | .notEquals => (looselySame a b).map (!·)
      | .greaterThan => ordered (fun x y => decide (y < x)) a b
      | .lessThan => ordered (fun x y => decide (x < y)) a b
      | .greaterEqual => ordered (fun x y => decide (y ≤ x)) a b
      | .lessEqual => ordered (fun x y => decide (x ≤ y)) a b
      | .contains => holds a b
      | .notContains => (holds a b).map (!·)
      | .isIn => .ok ((isItem? a b).getD false)
      | .notIn => .ok (((isItem? a b).map (!·)).getD false) := by
  cases a with
  | null => exact absurd rfl filled
  | _ => cases op <;> rfl

/-- A comparison that looks at no text comes to what it comes to when both sides are arranged. -/
theorem compare_arranged {a b : Value} {op : Comparison} (inner : textsRead a op b = none) :
    compare a.arranged op b.arranged = compare a op b := by
  by_cases filled : a = .null
  · subst filled
    cases op with
    | notIn => exact congrArg (Except.ok ·.isSome) (isItem?_arranged .null b)
    | _ => rfl
  · have still : a.arranged ≠ .null := by
      cases a with
      | null => exact absurd rfl filled
      | _ => nofun
    rw [compare_filled filled, compare_filled still]
    cases op with
    | equals | notEquals => simp only [looselySame_arranged]
    | greaterThan | lessThan | greaterEqual | lessEqual => simp only [ordered_arranged]
    | isIn | notIn => simp only [isItem?_arranged]
    | contains => exact holds_arranged inner filled
    | notContains =>
      have same : textsRead a .contains b = none := by
        cases a <;> first | rfl | cases inner
      simp only [holds_arranged same filled]

/-- A comparison that looks at texts comes to whether the one is a part of the other. -/
theorem compare_texts {a b : Value} {op : Comparison} {part whole : String}
    (texts : textsRead a op b = some (part, whole)) :
    compare a op b = .ok (Value.isPart part.toList whole.toList == decide (op = .contains)) := by
  cases op with
  | contains =>
    cases a <;> cases texts <;> exact congrArg Except.ok (beq_true _).symm
  | notContains =>
    cases a <;> cases texts <;> exact congrArg Except.ok (beq_false _).symm
  | _ => cases texts

/-- Comparisons come to the same for values that are arranged alike and have the same texts. -/
theorem compare_congr {a a' b b' : Value} {op : Comparison} (left : a.arranged = a'.arranged)
    (right : b.arranged = b'.arranged) (texts : textsRead a op b = textsRead a' op b') :
    compare a op b = compare a' op b' := by
  cases h : textsRead a op b with
  | none =>
    calc compare a op b = compare a.arranged op b.arranged := (compare_arranged h).symm
      _ = compare a'.arranged op b'.arranged := by rw [left, right]
      _ = compare a' op b' := compare_arranged (texts.symm.trans h)
  | some read => rw [compare_texts h, compare_texts (texts.symm.trans h)]

theorem step_arranged (v : Value) (segment : String) :
    v.arranged.step segment = (v.step segment).map arranged := by
  cases v with
  | arr items =>
    rw [arranged, step, arrangedItems_eq, itemAt_map rfl]
    rfl
  | obj ms =>
    have null : arranged .null = .null := rfl
    simp only [arranged, step, Json.get?_sorted, get?_arrangedMembers, getD_map_null null]
    rfl
  | record type fields =>
    have null : arranged .null = .null := rfl
    simp only [arranged, step, get?_arrangedMembers, getD_map_null null]
    rfl
  | _ => rfl

theorem resolve_arranged (v : Value) (path : String) :
    v.arranged.resolve path = (v.resolve path).map arranged :=
  resolve_map rfl step_arranged v path

end EntityRules.Value
