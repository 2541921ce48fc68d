import EntityRules.Value.Path

/-! Paths into values. -/

namespace EntityRules

theorem cutAt_ne_nil (separator : Char) (text : List Char) : cutAt separator text ≠ [] := by
  cases text with
  | nil => exact List.cons_ne_nil _ _
  | cons c rest =>
    rw [cutAt]
    split
    · exact List.cons_ne_nil _ _
    · split <;> exact List.cons_ne_nil _ _

/-- Two texts with a separator between them are cut into what each of them is cut into. -/
theorem cutAt_append (separator : Char) (front back : List Char) :
    cutAt separator (front ++ separator :: back) =
      cutAt separator front ++ cutAt separator back := by
  induction front with
  | nil => rw [List.nil_append, cutAt, cutAt, if_pos rfl, List.singleton_append]
  | cons c rest ih =>
    rw [List.cons_append, cutAt, cutAt, ih]
    split
    · rfl
    · cases parts : cutAt separator rest with
      | nil => exact absurd parts (cutAt_ne_nil separator rest)
      | cons part others => rfl

theorem segments_append (p q : String) : segments (p ++ "." ++ q) = segments p ++ segments q := by
  have point : (p ++ "." ++ q).toList = p.toList ++ '.' :: q.toList := by simp
  rw [segments, point, cutAt_append, List.map_append]
  rfl

namespace Value

theorem resolve_of_ne {path : String} (some : path ≠ "") (root : Value) :
    root.resolve path = root.follow (segments path) := if_neg some

/-- A path that is made of two is followed one after the other. -/
theorem resolve_append (root : Value) {p q : String} (front : p ≠ "") (back : q ≠ "") :
    root.resolve (p ++ "." ++ q) = (root.resolve p).bind (·.resolve q) := by
  have whole : p ++ "." ++ q ≠ "" := by
    intro none
    have := congrArg String.length none
    simp at this
  simp only [resolve_of_ne front, resolve_of_ne back, resolve_of_ne whole, segments_append,
    follow_append]

section

variable {f : Value → Value}

theorem itemAt_map (null : f .null = .null) (items : List Value) (segment : String) :
    itemAt (items.map f) segment = (itemAt items segment).map f := by
  unfold itemAt
  dsimp only
  split
  · exact congrArg Except.ok null.symm
  · split
    · rfl
    · split
      · rfl
      · next i _ =>
        rw [List.getElem?_map]
        cases items[i]? with
        | none => exact congrArg Except.ok null.symm
        | some v => rfl

theorem getD_map_null (null : f .null = .null) (v : Option Value) :
    (v.map f).getD .null = f (v.getD .null) := by
  cases v with
  | none => exact null.symm
  | some v => rfl

/-- What goes along with every step goes along with a path. -/
theorem follow_map (step : ∀ v segment, (f v).step segment = (v.step segment).map f) (v : Value)
    (path : List String) : (f v).follow path = (v.follow path).map f := by
  induction path generalizing v with
  | nil => rfl
  | cons s rest ih =>
    rw [follow, follow, step]
    cases v.step s with
    | ok w => exact ih w
    | error t => rfl

theorem resolve_map (null : f .null = .null)
    (step : ∀ v segment, (f v).step segment = (v.step segment).map f) (v : Value)
    (path : String) : (f v).resolve path = (v.resolve path).map f := by
  unfold resolve
  split
  · exact congrArg Except.ok null.symm
  · exact follow_map step v _

end

end Value

end EntityRules
