import EntityRules.Proofs.Json.Reordered
import EntityRules.Proofs.Number.Exact
import EntityRules.Proofs.Value.Arranged

/-! How the comparisons go together. -/

namespace EntityRules

namespace Value

variable {a b : Value}

theorem Numeral.same_comm (m n : Numeral) : m.same n = n.same m := by
  cases m with
  | whole m =>
    cases n with
    | whole n => exact decide_eq_decide.mpr eq_comm
    | double x => rfl
  | double x =>
    cases n with
    | whole n => rfl
    | double y => exact Binary64.beq_comm x y

theorem sameLeaf_comm (a b : Value) : sameLeaf a b = sameLeaf b a := by
  unfold sameLeaf
  cases a.numeral? with
  | none =>
    cases b.numeral? <;> cases a.plain <;> cases b.plain <;>
      simp only [eq_comm]
  | some m =>
    cases b.numeral? with
    | none => cases a.plain <;> cases b.plain <;> simp only [eq_comm]
    | some n => exact Numeral.same_comm m n

theorem names_ofMembers (ms : Members Json) : Members.names (ofMembers ms) = Members.names ms := by
  rw [ofMembers_eq, Members.names, List.map_map]
  rfl

theorem sameItems_iff (xs ys : List Value) :
    sameItems xs ys = true ↔ List.Forall₂ (fun x y => same x y = true) xs ys := by
  induction xs generalizing ys with
  | nil => cases ys <;> simp [sameItems]
  | cons x rest ih =>
    cases ys with
    | nil => simp [sameItems]
    | cons y ys => rw [sameItems, Bool.and_eq_true, ih, List.forall₂_cons]

theorem sameMembers_iff (ms ns : Members Value) :
    sameMembers ms ns = true ↔ ∀ m ∈ ms, ∃ w, Members.get? ns m.1 = some w ∧ same m.2 w = true := by
  simp only [sameMembers_eq_all, List.all_eq_true, Option.any_eq_true]

/-- Objects of one size, with distinct names, have equal members from both sides. -/
theorem sameMembers_symm {ms ns : Members Value} (distinct : (Members.names ms).Nodup)
    (distinct' : (Members.names ns).Nodup) (size : ms.length = ns.length)
    (members : ∀ m ∈ ms, ∀ w, same m.2 w = true → (m.1, w) ∈ ns → same w m.2 = true)
    (h : sameMembers ms ns = true) : sameMembers ns ms = true := by
  rw [sameMembers_iff] at h ⊢
  have inside : Members.names ms ⊆ Members.names ns := by
    intro name hn
    obtain ⟨m, hm, rfl⟩ := List.mem_map.mp hn
    obtain ⟨w, found, -⟩ := h m hm
    exact Members.mem_names_of_mem (m := (m.1, w)) (Members.mem_of_get? found)
  have all : (Members.names ms).Perm (Members.names ns) :=
    (List.subperm_of_subset distinct inside).perm_of_length_le (by simp [Members.names, size])
  intro n hn
  obtain ⟨m, hm, name⟩ := List.mem_map.mp (all.mem_iff.mpr (Members.mem_names_of_mem hn))
  obtain ⟨w, found, equal⟩ := h m hm
  obtain rfl : n.2 = w := by
    have held := Members.get?_of_mem distinct' hn
    rw [← name, found] at held
    exact (Option.some.inj held).symm
  refine ⟨m.2, name ▸ Members.get?_of_mem distinct hm, members m hm n.2 equal ?_⟩
  rw [name]
  exact hn

theorem same_of_scalar {j : Json} (plain : j.isContainer = false) (v : Value) :
    same (ofJson j) v = sameLeaf (ofJson j) v ∧ same v (ofJson j) = sameLeaf v (ofJson j) := by
  cases j with
  | arr items => cases plain
  | obj ms => cases plain
  | _ => exact ⟨rfl, by cases v <;> rfl⟩

/-- What equals a document is equal to it from the other side. -/
theorem same_symm {i j : Json} (left : i.HasDistinctNames) (right : j.HasDistinctNames)
    (h : same (ofJson i) (ofJson j) = true) : same (ofJson j) (ofJson i) = true := by
  induction left generalizing j with
  | scalar plain =>
    rw [(same_of_scalar plain _).1] at h
    rw [(same_of_scalar plain _).2, sameLeaf_comm]
    exact h
  | @arr items _ ih =>
    cases right with
    | scalar plain =>
      rw [(same_of_scalar plain _).2] at h
      rw [(same_of_scalar plain _).1, sameLeaf_comm]
      exact h
    | obj => cases h
    | @arr items' inside =>
      rw [ofJson, ofJson, same, sameItems_iff, ofItems_eq, ofItems_eq, List.forall₂_map_left_iff,
        List.forall₂_map_right_iff] at h ⊢
      clear ‹∀ j ∈ items, j.HasDistinctNames›
      induction h with
      | nil => exact .nil
      | cons equal _ others =>
        rw [List.forall_mem_cons] at ih inside
        exact .cons (ih.1 inside.1 equal) (others ih.2 inside.2)
  | @obj ms distinct _ ih =>
    cases right with
    | scalar plain =>
      rw [(same_of_scalar plain _).2] at h
      rw [(same_of_scalar plain _).1, sameLeaf_comm]
      exact h
    | arr => cases h
    | @obj ns distinct' inside =>
      rw [ofJson, ofJson, same, Bool.and_eq_true, decide_eq_true_eq] at h ⊢
      refine ⟨h.1.symm, sameMembers_symm ?_ ?_ h.1 ?_ h.2⟩
      · rwa [names_ofMembers]
      · rwa [names_ofMembers]
      · rw [ofMembers_eq, ofMembers_eq]
        intro m hm w equal hw
        obtain ⟨m, inner, rfl⟩ := List.mem_map.mp hm
        obtain ⟨n, hn, member⟩ := List.mem_map.mp hw
        obtain rfl : ofJson n.2 = w := congrArg Prod.snd member
        exact ih m inner (inside n hn) equal

theorem same_comm {i j : Json} (left : i.HasDistinctNames) (right : j.HasDistinctNames) :
    same (ofJson i) (ofJson j) = same (ofJson j) (ofJson i) :=
  Bool.eq_iff_iff.mpr ⟨same_symm left right, same_symm right left⟩

theorem numbers?_of_numbers {x y : Float} (ha : a.number? = .ok (some x))
    (hb : b.number? = .ok (some y)) : numbers? a b = .ok (some (x, y)) := by
  rw [numbers?, ha, hb]
  rfl

/-- Whether the numbers that two values stand for pass a test. -/
def NumbersPass (test : Float → Float → Bool) (a b : Value) : Prop :=
  ∃ x y, a.number? = .ok (some x) ∧ b.number? = .ok (some y) ∧ test x y = true

theorem NumbersPass.mirror {test test' : Float → Float → Bool}
    (mirror : ∀ x y, test x y = test' y x) :
    NumbersPass test a b ↔ NumbersPass test' b a := by
  constructor
  · rintro ⟨x, y, ha, hb, pass⟩
    exact ⟨y, x, hb, ha, mirror x y ▸ pass⟩
  · rintro ⟨y, x, hb, ha, pass⟩
    exact ⟨x, y, ha, hb, (mirror x y).symm ▸ pass⟩

theorem map_numbers? {test : Float → Float → Bool} {r : Bool}
    (h : ((numbers? a b).map fun | some (x, y) => test x y | none => false) = .ok r) :
    r = true ↔ NumbersPass test a b := by
  unfold numbers? at h
  unfold NumbersPass
  cases ha : a.number? with
  | error t =>
    rw [ha] at h
    cases h
  | ok left =>
    cases hb : b.number? with
    | error t =>
      rw [ha, hb] at h
      cases h
    | ok right =>
      rw [ha, hb] at h
      cases h
      cases left <;> cases right <;> simp

/-- Null is equal to nothing but null. -/
theorem null_iff_of_same (h : same a b = true) : a = .null ↔ b = .null := by
  constructor
  · rintro rfl
    cases b with
    | null => rfl
    | _ => cases h
  · rintro rfl
    cases a with
    | null => rfl
    | _ => cases h

theorem NumbersPass.filled {test : Float → Float → Bool} (h : NumbersPass test a b) :
    a ≠ .null ∧ b ≠ .null := by
  obtain ⟨x, y, ha, hb, -⟩ := h
  constructor
  · rintro rfl
    cases ha
  · rintro rfl
    cases hb

/-- The test that an order comparison puts two numbers to. -/
def orderTest? : Comparison → Option (Float → Float → Bool)
  | .greaterThan => some fun x y => decide (y < x)
  | .lessThan => some fun x y => decide (x < y)
  | .greaterEqual => some fun x y => decide (y ≤ x)
  | .lessEqual => some fun x y => decide (x ≤ y)
  | _ => none

theorem compare_filled_order {op : Comparison} {test : Float → Float → Bool}
    (order : orderTest? op = some test) (filled : a ≠ .null) (b : Value) :
    compare a op b = ordered test a b := by
  rw [compare_filled filled]
  cases op <;> cases order <;> rfl

theorem compare_order {op : Comparison} {test : Float → Float → Bool} {r : Bool}
    (order : orderTest? op = some test) (h : compare a op b = .ok r) :
    r = true ↔ NumbersPass test a b := by
  by_cases filled : a = .null
  · subst filled
    have none : ¬ NumbersPass test .null b := by
      rintro ⟨x, y, ha, -⟩
      cases ha
    cases op <;> cases order <;> cases h <;> exact iff_of_false nofun none
  · rw [compare_filled_order order filled] at h
    exact map_numbers? h

theorem compare_equals {r : Bool} (h : compare a .equals b = .ok r) :
    r = true ↔ a ≠ .null ∧ (same a b = true ∨ NumbersPass (· == ·) a b) := by
  by_cases filled : a = .null
  · subst filled
    cases h
    exact iff_of_false nofun fun h => h.1 rfl
  · rw [compare_filled filled] at h
    dsimp only at h
    rw [looselySame] at h
    rw [and_iff_right filled]
    split at h
    · next equal =>
      cases h
      exact iff_of_true rfl (.inl equal)
    · next other =>
      rw [or_iff_right other]
      exact map_numbers? h

end Value

namespace Json

open Value

variable {a b : Json} {x y : Float}

/-- A document that stands for a number. -/
inductive StandsFor : Json → Float → Prop where
  | double (x : Float) : StandsFor (.float x) x
  | whole {n : ℤ} {x : Float} : Binary64.ofInt? n = some x → StandsFor (.int n) x
  | text {s : String} {x : Float} : Number.readAny? s = some x → StandsFor (.str s) x

/-- A document that stands for no number. -/
inductive StandsForNone : Json → Prop where
  | null : StandsForNone .null
  | bool (b : Bool) : StandsForNone (.bool b)
  | text {s : String} : Number.readAny? s = none → StandsForNone (.str s)
  | arr (items : List Json) : StandsForNone (.arr items)
  | obj (members : Members Json) : StandsForNone (.obj members)

theorem StandsFor.number? (h : a.StandsFor x) : (ofJson a).number? = .ok (some x) := by
  cases h with
  | double => rfl
  | whole rounds => simp only [ofJson, Value.number?, plain, rounds]
  | text reads => exact congrArg Except.ok reads

theorem StandsForNone.number? (h : a.StandsForNone) : (ofJson a).number? = .ok none := by
  cases h with
  | text reads => exact congrArg Except.ok reads
  | _ => rfl

/-- What is equal exactly is equal when it is rounded. -/
theorem beq_of_same (left : a.StandsFor x) (right : b.StandsFor y) (hx : x.isNaN = false)
    (h : same (ofJson a) (ofJson b) = true) : (x == y) = true := by
  have self : (x == x) = true := (Binary64.beq_iff_count hx hx).mpr rfl
  cases left with
  | double =>
    cases right with
    | double => exact h
    | whole rounds =>
      rw [Binary64.beq_comm]
      exact Binary64.beq_of_compareInt (of_decide_eq_true h) rounds
    | text => cases h
  | whole rounds =>
    cases right with
    | double => exact Binary64.beq_of_compareInt (of_decide_eq_true h) rounds
    | whole rounds' =>
      obtain rfl := of_decide_eq_true h
      obtain rfl := Option.some.inj (rounds.symm.trans rounds')
      exact self
    | text => cases h
  | text reads =>
    cases right with
    | double => cases h
    | whole => cases h
    | text reads' =>
      obtain rfl := of_decide_eq_true h
      obtain rfl := Option.some.inj (reads.symm.trans reads')
      exact self

/-- What a comparison of one document with another comes to. -/
def compared (a : Json) (op : Comparison) (b : Json) : Except Trouble Bool :=
  (ofJson a).compare op (ofJson b)

/-- The comparison that asks the same from the other side. -/
def mirror? : Comparison → Option Comparison
  | .equals => some .equals
  | .greaterThan => some .lessThan
  | .lessThan => some .greaterThan
  | .greaterEqual => some .lessEqual
  | .lessEqual => some .greaterEqual
  | _ => none

/-- The comparison that asks for the contrary. -/
def contrary? : Comparison → Option Comparison
  | .equals => some .notEquals
  | .contains => some .notContains
  | _ => none

/-- How the comparisons of one document with another go together. -/
structure Consistent (a b : Json) : Prop where
  contrary : ∀ op op', contrary? op = some op' → a.compared op' b = (a.compared op b).map (!·)
  notIn : ∀ items, b = .arr items →
    ∃ r, a.compared .isIn b = .ok r ∧ a.compared .notIn b = .ok !r
  noList : (∀ items, b ≠ .arr items) →
    a.compared .isIn b = .ok false ∧ a.compared .notIn b = .ok false
  mirrored : ∀ op op', mirror? op = some op' → ∀ r r', a.compared op b = .ok r →
    b.compared op' a = .ok r' → r = r'
  unordered : a.StandsForNone ∨ b.StandsForNone →
    ∀ op ∈ [Comparison.greaterThan, .lessThan, .greaterEqual, .lessEqual],
      ∀ r, a.compared op b = .ok r → r = false
  numbers : ∀ x y, a.StandsFor x → b.StandsFor y → x.isNaN = false → y.isNaN = false →
    ∃ less greater equal : Bool, a.compared .lessThan b = .ok less ∧
      a.compared .greaterThan b = .ok greater ∧ a.compared .equals b = .ok equal ∧
      less.toNat + greater.toNat + equal.toNat = 1 ∧
      a.compared .greaterEqual b = .ok (greater || equal) ∧
      a.compared .lessEqual b = .ok (less || equal)

theorem compared_contrary {op op' : Comparison} (contrary : contrary? op = some op')
    (a b : Json) : a.compared op' b = (a.compared op b).map (!·) := by
  unfold compared
  by_cases filled : ofJson a = .null
  · rw [filled]
    cases op <;> cases contrary <;> rfl
  · rw [compare_filled filled, compare_filled filled]
    cases op <;> cases contrary <;> rfl

theorem compared_notIn (a : Json) (items : List Json) :
    ∃ r, a.compared .isIn (.arr items) = .ok r ∧ a.compared .notIn (.arr items) = .ok !r := by
  unfold compared
  by_cases filled : ofJson a = .null
  · rw [filled]
    exact ⟨false, rfl, rfl⟩
  · rw [compare_filled filled, compare_filled filled]
    exact ⟨_, rfl, rfl⟩

theorem compared_noList (a : Json) (other : ∀ items, b ≠ .arr items) :
    a.compared .isIn b = .ok false ∧ a.compared .notIn b = .ok false := by
  unfold compared
  have none (v : Value) : isItem? v (ofJson b) = none := by
    cases b with
    | arr items => exact absurd rfl (other items)
    | _ => rfl
  by_cases filled : ofJson a = .null
  · refine ⟨by rw [filled]; rfl, ?_⟩
    rw [filled, Value.compare, none]
    rfl
  · rw [compare_filled filled, compare_filled filled]
    dsimp only
    rw [none]
    exact ⟨rfl, rfl⟩

theorem compared_mirrored (left : a.HasDistinctNames) (right : b.HasDistinctNames)
    {op op' : Comparison} (mirror : mirror? op = some op') {r r' : Bool}
    (h : a.compared op b = .ok r) (h' : b.compared op' a = .ok r') : r = r' := by
  rw [Bool.eq_iff_iff]
  by_cases equality : op = .equals
  · subst equality
    cases mirror
    rw [compare_equals h, compare_equals h', same_comm left right,
      NumbersPass.mirror Binary64.beq_comm]
    refine and_congr_left fun equal => ?_
    rcases equal with same | rounded
    · exact (null_iff_of_same same).symm.not
    · exact iff_of_true rounded.filled.2 rounded.filled.1
  · obtain ⟨test, test', order, order', swap⟩ : ∃ test test', orderTest? op = some test ∧
        orderTest? op' = some test' ∧ ∀ x y, test x y = test' y x := by
      cases op <;> cases mirror
      · exact absurd rfl equality
      all_goals exact ⟨_, _, rfl, rfl, fun _ _ => rfl⟩
    rw [compare_order order h, compare_order order' h', NumbersPass.mirror swap]

theorem compared_unordered (none : a.StandsForNone ∨ b.StandsForNone) {op : Comparison}
    (order : op ∈ [Comparison.greaterThan, .lessThan, .greaterEqual, .lessEqual]) {r : Bool}
    (h : a.compared op b = .ok r) : r = false := by
  obtain ⟨test, passes⟩ : ∃ test, orderTest? op = some test := by
    simp only [List.mem_cons, List.not_mem_nil, or_false] at order
    rcases order with rfl | rfl | rfl | rfl <;> exact ⟨_, rfl⟩
  rw [← Bool.not_eq_true, compare_order passes h]
  rintro ⟨x, y, left, right, -⟩
  rcases none with none | none
  · rw [none.number?] at left
    cases left
  · rw [none.number?] at right
    cases right

/-- Two numbers are compared as what they are rounded to. -/
theorem compared_of_numbers (left : a.StandsFor x) (right : b.StandsFor y) (hx : x.isNaN = false) :
    (∀ op test, orderTest? op = some test → a.compared op b = .ok (test x y)) ∧
      a.compared .equals b = .ok (x == y) := by
  have filled : ofJson a ≠ .null := by cases left <;> nofun
  have both := numbers?_of_numbers left.number? right.number?
  unfold compared
  refine ⟨fun op test passes => ?_, ?_⟩
  · rw [compare_filled_order passes filled, ordered, both]
    rfl
  · rw [compare_filled filled]
    dsimp only
    rw [looselySame, both]
    split
    · next equal => rw [beq_of_same left right hx equal]
    · rfl

theorem compared_numbers (left : a.StandsFor x) (right : b.StandsFor y) (hx : x.isNaN = false)
    (hy : y.isNaN = false) :
    ∃ less greater equal : Bool, a.compared .lessThan b = .ok less ∧
      a.compared .greaterThan b = .ok greater ∧ a.compared .equals b = .ok equal ∧
      less.toNat + greater.toNat + equal.toNat = 1 ∧
      a.compared .greaterEqual b = .ok (greater || equal) ∧
      a.compared .lessEqual b = .ok (less || equal) := by
  obtain ⟨orders, equals⟩ := compared_of_numbers left right hx
  have less := Binary64.lt_iff_count hx hy
  have greater := Binary64.lt_iff_count hy hx
  have most := Binary64.le_iff_count hx hy
  have least := Binary64.le_iff_count hy hx
  have equal : (x == y) = decide (Binary64.count x = Binary64.count y) :=
    Bool.eq_iff_iff.mpr ((Binary64.beq_iff_count hx hy).trans decide_eq_true_iff.symm)
  have one (p : Prop) [Decidable p] : (decide p).toNat = if p then 1 else 0 := by
    by_cases h : p <;> simp [h]
  refine ⟨_, _, _, orders _ _ rfl, orders _ _ rfl, equals, ?_, ?_, ?_⟩
  · simp only [less, greater, equal, one]
    split_ifs <;> omega
  · rw [orders _ _ rfl]
    simp only [least, greater, equal, ← Bool.decide_or]
    exact congrArg _ (decide_eq_decide.mpr (by omega))
  · rw [orders _ _ rfl]
    simp only [most, less, equal, ← Bool.decide_or]
    exact congrArg _ (decide_eq_decide.mpr (by omega))

/-- All comparisons of any two documents go together. -/
theorem compared_consistent (left : a.HasDistinctNames) (right : b.HasDistinctNames) :
    Consistent a b where
  contrary _ _ contrary := compared_contrary contrary a b
  notIn := by
    rintro items rfl
    exact compared_notIn a items
  noList := compared_noList a
  mirrored _ _ mirror _ _ := compared_mirrored left right mirror
  unordered none _ order _ := compared_unordered none order
  numbers _ _ := compared_numbers

namespace Sample

/-- A whole number between two doubles. -/
def vast : Json := .int 9007199254740993

/-- The double that it is rounded to, spelled out. -/
def spelled : Json := .str " 9007199254740992.0 "

/-- Two objects that are equal though no part of the one is written like the other. -/
def ledger (one : Json) : Json := .obj [("coins", one), ("marks", .arr [.bool true])]

def ledgerTurned (one : Json) : Json := .obj [("marks", .arr [.float 1]), ("coins", one)]

theorem ledger_hasDistinctNames : (ledger (.int 1)).HasDistinctNames := by
  refine .obj (by decide) (List.forall_mem_cons.mpr ⟨.scalar rfl, ?_⟩)
  exact List.forall_mem_singleton.mpr (.arr (List.forall_mem_singleton.mpr (.scalar rfl)))

theorem ledgerTurned_hasDistinctNames : (ledgerTurned (.bool true)).HasDistinctNames := by
  refine .obj (by decide) (List.forall_mem_cons.mpr ⟨?_, ?_⟩)
  · exact .arr (List.forall_mem_singleton.mpr (.scalar rfl))
  · exact List.forall_mem_singleton.mpr (.scalar rfl)

end Sample

theorem compared_consistent_ledgers :
    (Sample.ledger (.int 1)).HasDistinctNames ∧
      (Sample.ledgerTurned (.bool true)).HasDistinctNames ∧
      Consistent (Sample.ledger (.int 1)) (Sample.ledgerTurned (.bool true)) ∧
      (Sample.ledger (.int 1)).compared .equals (Sample.ledgerTurned (.bool true)) = .ok true ∧
      Consistent Sample.vast Sample.spelled ∧
      Sample.vast.compared .equals Sample.spelled = .ok true :=
  ⟨Sample.ledger_hasDistinctNames, Sample.ledgerTurned_hasDistinctNames,
    compared_consistent Sample.ledger_hasDistinctNames Sample.ledgerTurned_hasDistinctNames, by rfl,
    compared_consistent (.scalar rfl) (.scalar rfl), by rfl⟩

end Json

end EntityRules
