/-! When computations that may fail give an answer. -/

namespace EntityRules

variable {ε ε' α β : Type} {x : Except ε α} {a : α} {b : β}

theorem ok_bind (a : α) (f : α → Except ε β) : (Except.ok a >>= f) = f a := pure_bind a f

theorem bind_eq_ok {f : α → Except ε β} :
    x >>= f = .ok b ↔ ∃ a, x = .ok a ∧ f a = .ok b := by
  cases x <;> simp [bind, Except.bind]

theorem exists_of_isOk (h : x.isOk = true) : ∃ a, x = .ok a := by
  cases x with
  | ok a => exact ⟨a, rfl⟩
  | error e => cases h

theorem except_bind_eq_ok {f : α → Except ε β} :
    x.bind f = .ok b ↔ ∃ a, x = .ok a ∧ f a = .ok b :=
  bind_eq_ok

theorem map_eq_ok {f : α → β} : x.map f = .ok b ↔ ∃ a, x = .ok a ∧ f a = b := by
  cases x <;> simp [Except.map]

theorem mapError_eq_ok {f : ε → ε'} : x.mapError f = .ok a ↔ x = .ok a := by
  cases x with
  | ok v => exact ⟨fun h => congrArg _ (Except.ok.inj h), fun h => congrArg _ (Except.ok.inj h)⟩
  | error e => exact ⟨nofun, nofun⟩

/-- Computations that are the same up to some map fail alike or give what is the same up to it. -/
theorem map_eq_map_cases {f : α → β} {y : Except ε α} (h : y.map f = x.map f) :
    (∃ why, x = .error why ∧ y = .error why) ∨ ∃ a a', x = .ok a ∧ y = .ok a' ∧ f a' = f a := by
  cases x with
  | error why =>
    cases y with
    | error why' => exact .inl ⟨why, rfl, congrArg Except.error (Except.error.inj h)⟩
    | ok a' => cases h
  | ok a =>
    cases y with
    | error why' => cases h
    | ok a' => exact .inr ⟨a, a', rfl, rfl, Except.ok.inj h⟩

section

variable {l : List α} {found : List β} {f : α → Except ε β}

/-- A computation over a list gives what it gives for each element. -/
theorem mapM_eq_ok : l.mapM f = .ok found ↔ l.map f = found.map .ok := by
  induction l generalizing found with
  | nil => cases found <;> simp [pure, Except.pure]
  | cons a rest ih =>
    simp only [List.mapM_cons, bind_eq_ok, ih, List.map_cons]
    constructor
    · rintro ⟨b, hb, others, each, same⟩
      cases same
      rw [hb, each, List.map_cons]
    · intro h
      cases found with
      | nil => cases h
      | cons b others =>
        obtain ⟨hb, each⟩ := List.cons.inj h
        exact ⟨b, hb, others, each, rfl⟩

theorem exists_of_mapM (made : l.mapM f = .ok found) (hb : b ∈ found) : ∃ a ∈ l, f a = .ok b := by
  have hb : Except.ok b ∈ l.map f := mapM_eq_ok.mp made ▸ List.mem_map_of_mem hb
  exact List.mem_map.mp hb

/-- What each of the computations keeps is kept by all of them together. -/
theorem map_of_mapM {κ : Type} {key : α → κ} {key' : β → κ} (made : l.mapM f = .ok found)
    (kept : ∀ a b, f a = .ok b → key' b = key a) : found.map key' = l.map key := by
  induction l generalizing found with
  | nil =>
    cases made
    rfl
  | cons a rest ih =>
    simp only [List.mapM_cons, bind_eq_ok] at made
    obtain ⟨b, hb, others, each, same⟩ := made
    cases same
    rw [List.map_cons, List.map_cons, kept a b hb, ih each]

theorem exists_mapM_eq_ok : (∃ found, l.mapM f = .ok found) ↔ ∀ a ∈ l, ∃ b, f a = .ok b := by
  induction l with
  | nil => exact ⟨fun _ => by simp, fun _ => ⟨[], rfl⟩⟩
  | cons a rest ih =>
    rw [List.forall_mem_cons, ← ih]
    simp only [List.mapM_cons, bind_eq_ok]
    constructor
    · rintro ⟨_, b, hb, others, each, -⟩
      exact ⟨⟨b, hb⟩, others, each⟩
    · rintro ⟨⟨b, hb⟩, others, each⟩
      exact ⟨_, b, hb, others, each, rfl⟩

end

end EntityRules
