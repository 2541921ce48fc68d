import EntityRules.Proofs.Json.Faithful

/-! Documents up to the order of members. -/

namespace EntityRules.Json

variable {a b : Json}

/-- No object in the document has two members of one name. -/
inductive HasDistinctNames : Json → Prop where
  | scalar {j : Json} : j.isContainer = false → HasDistinctNames j
  | arr {items : List Json} : (∀ j ∈ items, HasDistinctNames j) → HasDistinctNames (.arr items)
  | obj {members : Members Json} :
    (Members.names members).Nodup → (∀ m ∈ members, HasDistinctNames m.2) →
    HasDistinctNames (.obj members)

/-- The other document has the members of some objects in another order, at any depth. -/
inductive Reordered : Json → Json → Prop where
  | refl (j : Json) : Reordered j j
  | trans {a b c : Json} : Reordered a b → Reordered b c → Reordered a c
  | members {ms ms' : Members Json} : ms.Perm ms' → Reordered (.obj ms) (.obj ms')
  | item {a b : Json} (front back : List Json) :
    Reordered a b → Reordered (.arr (front ++ a :: back)) (.arr (front ++ b :: back))
  | value {a b : Json} (front back : Members Json) (name : String) :
    Reordered a b →
    Reordered (.obj (front ++ (name, a) :: back)) (.obj (front ++ (name, b) :: back))

namespace Reordered

theorem symm (h : Reordered a b) : Reordered b a := by
  induction h with
  | refl j => exact .refl j
  | trans _ _ ih ih' => exact ih'.trans ih
  | members same => exact .members same.symm
  | item front back _ ih => exact .item front back ih
  | value front back name _ ih => exact .value front back name ih

theorem hasDistinctNames (h : Reordered a b) (distinct : a.HasDistinctNames) :
    b.HasDistinctNames := by
  induction h with
  | refl => exact distinct
  | trans _ _ ih ih' => exact ih' (ih distinct)
  | members same =>
    cases distinct with
    | scalar other => cases other
    | obj nodup inside =>
      exact .obj ((same.map _).nodup_iff.mp nodup) fun m hm => inside m (same.mem_iff.mpr hm)
  | item front back _ ih =>
    cases distinct with
    | scalar other => cases other
    | arr inside =>
      simp only [List.forall_mem_append, List.forall_mem_cons] at inside
      refine .arr ?_
      simp only [List.forall_mem_append, List.forall_mem_cons]
      exact ⟨inside.1, ih inside.2.1, inside.2.2⟩
  | value front back name _ ih =>
    cases distinct with
    | scalar other => cases other
    | obj nodup inside =>
      simp only [List.forall_mem_append, List.forall_mem_cons] at inside
      refine .obj (by simpa [Members.names] using nodup) ?_
      simp only [List.forall_mem_append, List.forall_mem_cons]
      exact ⟨inside.1, ih inside.2.1, inside.2.2⟩

theorem arranged_eq (h : Reordered a b) (distinct : a.HasDistinctNames) :
    a.arranged = b.arranged := by
  induction h with
  | refl => rfl
  | trans first _ ih ih' => exact (ih distinct).trans (ih' (first.hasDistinctNames distinct))
  | @members ms ms' same =>
    cases distinct with
    | scalar other => cases other
    | obj nodup _ =>
      have names : (Members.names (ms.map fun m => (m.1, m.2.arranged))).Nodup := by
        rwa [Members.names, List.map_map]
      rw [arranged, arranged, arrangedMembers_eq, arrangedMembers_eq,
        sorted_eq_of_perm (same.map _) names]
  | item front back _ ih =>
    cases distinct with
    | scalar other => cases other
    | arr inside =>
      have middle := ih (inside _ (by simp))
      simp only [arranged, arrangedItems_eq, List.map_append, List.map_cons, middle]
  | value front back name _ ih =>
    cases distinct with
    | scalar other => cases other
    | obj _ inside =>
      have middle := ih (inside (name, _) (by simp))
      simp only [arranged, arrangedMembers_eq, List.map_append, List.map_cons, middle]

end Reordered

mutual

/-- A document is reordered by sorting. -/
theorem reordered_arranged : ∀ j : Json, Reordered j j.arranged
  | .null => .refl _
  | .bool _ => .refl _
  | .int _ => .refl _
  | .float _ => .refl _
  | .str _ => .refl _
  | .arr items => reordered_arrangedItems [] items
  | .obj members =>
    (reordered_arrangedMembers [] members).trans (.members (sorted_perm _).symm)

theorem reordered_arrangedItems (front : List Json) : ∀ items : List Json,
    Reordered (.arr (front ++ items)) (.arr (front ++ arrangedItems items))
  | [] => .refl _
  | j :: rest => by
    have others := reordered_arrangedItems (front ++ [j.arranged]) rest
    rw [List.append_assoc, List.append_assoc] at others
    exact (Reordered.item front rest (reordered_arranged j)).trans others

theorem reordered_arrangedMembers (front : Members Json) : ∀ members : Members Json,
    Reordered (.obj (front ++ members)) (.obj (front ++ arrangedMembers members))
  | [] => .refl _
  | (name, j) :: rest => by
    have others := reordered_arrangedMembers (front ++ [(name, j.arranged)]) rest
    rw [List.append_assoc, List.append_assoc] at others
    exact (Reordered.value front rest name (reordered_arranged j)).trans others

end

theorem reordered_iff (distinct : a.HasDistinctNames) :
    a.Reordered b ↔ a.arranged = b.arranged := by
  refine ⟨fun h => h.arranged_eq distinct, fun same => ?_⟩
  exact (reordered_arranged a).trans (same ▸ (reordered_arranged b).symm)

/-- A document without parts is arranged like no other one. -/
theorem eq_of_arranged (plain : a.isContainer = false) (same : a.arranged = b.arranged) :
    a = b := by
  cases a <;> cases b <;> simp_all [arranged, isContainer]

end EntityRules.Json
