import EntityRules.Proofs.Json.Sorted
import EntityRules.Proofs.Json.Text
import EntityRules.Proofs.Number.Text

/-! What the canonical text of a document says: the document up to the order of members. -/

namespace EntityRules.Json

mutual

/-- A document with the members of its objects sorted by name, at every level. -/
def arranged : Json → Json
  | .arr items => .arr (arrangedItems items)
  | .obj members => .obj (sorted (arrangedMembers members))
  | j => j

def arrangedItems : List Json → List Json
  | [] => []
  | j :: rest => arranged j :: arrangedItems rest

def arrangedMembers : Members Json → Members Json
  | [] => []
  | (name, j) :: rest => (name, arranged j) :: arrangedMembers rest

end

mutual

/-- The text of a document with its members as they stand. -/
def plainChars : Json → List Char
  | .null => ['n', 'u', 'l', 'l']
  | .bool true => ['t', 'r', 'u', 'e']
  | .bool false => ['f', 'a', 'l', 's', 'e']
  | .int n => intChars n
  | .float x => (Number.text Number.document x).toList
  | .str s => textChars s
  | .arr items => '[' :: joined (plainItems items) ++ [']']
  | .obj members => '\x7b' :: joined (plainMembers members) ++ ['\x7d']

def plainItems : List Json → List (List Char)
  | [] => []
  | j :: rest => plainChars j :: plainItems rest

def plainMembers : Members Json → List (List Char)
  | [] => []
  | (name, j) :: rest => memberChars (name, plainChars j) :: plainMembers rest

end

theorem plainItems_eq (items : List Json) : plainItems items = items.map plainChars := by
  induction items with
  | nil => rfl
  | cons j rest ih => rw [plainItems, ih, List.map_cons]

theorem plainMembers_eq (members : Members Json) :
    plainMembers members = members.map fun m => memberChars (m.1, plainChars m.2) := by
  induction members with
  | nil => rfl
  | cons m rest ih => rw [plainMembers, ih, List.map_cons]

mutual

/-- The canonical text of a document is the text of the document with its members sorted. -/
theorem canonicalChars_eq : ∀ j : Json, canonicalChars j = plainChars (arranged j)
  | .null => rfl
  | .bool true => rfl
  | .bool false => rfl
  | .int _ => rfl
  | .float _ => rfl
  | .str _ => rfl
  | .arr items => by
    rw [canonicalChars, arranged, plainChars, canonicalItems_eq items]
  | .obj members => by
    rw [canonicalChars, arranged, plainChars, plainMembers_eq, canonicalMembers_eq members]
    rw [sorted_map plainChars (arrangedMembers members), List.map_map]
    rfl

theorem canonicalItems_eq : ∀ items : List Json,
    canonicalItems items = plainItems (arrangedItems items)
  | [] => rfl
  | j :: rest => by
    rw [canonicalItems, arrangedItems, plainItems, canonicalChars_eq j, canonicalItems_eq rest]

theorem canonicalMembers_eq : ∀ members : Members Json,
    canonicalMembers members = (arrangedMembers members).map fun m => (m.1, plainChars m.2)
  | [] => rfl
  | (name, j) :: rest => by
    rw [canonicalMembers, arrangedMembers, List.map_cons, canonicalChars_eq j,
      canonicalMembers_eq rest]

end

/-- The characters that stand behind a document within another one. -/
def ends : List Char := [',', ']', '\x7d']

/-- A rest that a document may be followed by: nothing, or something that ends it. -/
def IsEnd (s : List Char) : Prop := ∀ c rest, s = c :: rest → c ∈ ends

theorem isEnd_nil : IsEnd [] := fun _ _ h => by cases h

theorem isEnd_cons {c : Char} (h : c ∈ ends) (rest : List Char) : IsEnd (c :: rest) := by
  rintro c' rest' same
  cases same
  exact h

/-- A value is read back from its text, whatever ends it. -/
def ReadsBack {α : Type} (write : α → List Char) (x : α) : Prop :=
  ∀ y s t, IsEnd s → IsEnd t → write x ++ s = write y ++ t → x = y ∧ s = t

/-- Texts without ending characters end where such a character stands. -/
theorem append_inj_of_isEnd {a b s t : List Char} (ha : ∀ c ∈ ends, c ∉ a) (hb : ∀ c ∈ ends, c ∉ b)
    (hs : IsEnd s) (ht : IsEnd t) (h : a ++ s = b ++ t) : a = b ∧ s = t := by
  induction a generalizing b with
  | nil =>
    cases b with
    | nil => exact ⟨rfl, h⟩
    | cons d b => exact absurd List.mem_cons_self (hb d (hs d _ h))
  | cons c a ih =>
    cases b with
    | nil => exact absurd List.mem_cons_self (ha c (ht c _ h.symm))
    | cons d b =>
      obtain ⟨rfl, tails⟩ := List.cons.inj h
      obtain ⟨rfl, rest⟩ := ih (fun e he hm => ha e he (List.mem_cons_of_mem _ hm))
        (fun e he hm => hb e he (List.mem_cons_of_mem _ hm)) tails
      exact ⟨rfl, rest⟩

section

variable {α : Type} {write : α → List Char} {close : Char} {xs ys : List α} {s t : List Char}

theorem joined_cons (text : List Char) (rest : List (List Char)) :
    joined (text :: rest) = text ++ rest.flatMap (',' :: ·) := by
  induction rest generalizing text with
  | nil => simp [joined]
  | cons next rest ih =>
    rw [joined, ih, List.flatMap_cons, List.cons_append]
    exact List.cons_ne_nil _ _

/-- Behind a value of a list stands a comma or the end of the list. -/
theorem isEnd_flatMap (hclose : close ∈ ends) :
    IsEnd (xs.flatMap (fun x => ',' :: write x) ++ close :: s) := by
  cases xs with
  | nil => exact isEnd_cons hclose s
  | cons x xs => exact isEnd_cons (by decide) _

theorem flatMap_inj (hclose : close ∈ [']', '\x7d']) (hx : ∀ x ∈ xs, ReadsBack write x)
    (h : xs.flatMap (fun x => ',' :: write x) ++ close :: s =
      ys.flatMap (fun x => ',' :: write x) ++ close :: t) : xs = ys ∧ s = t := by
  have comma : close ≠ ',' := by
    rintro rfl
    exact absurd hclose (by decide)
  induction xs generalizing ys with
  | nil =>
    cases ys with
    | nil => exact ⟨rfl, (List.cons.inj h).2⟩
    | cons y ys => exact absurd (List.cons.inj h).1 comma
  | cons x xs ih =>
    cases ys with
    | nil => exact absurd (List.cons.inj h).1.symm comma
    | cons y ys =>
      simp only [List.flatMap_cons, List.cons_append, List.append_assoc, List.cons.injEq,
        true_and] at h
      obtain ⟨rfl, rest⟩ := hx x List.mem_cons_self y _ _
        (isEnd_flatMap (List.mem_cons_of_mem _ hclose))
        (isEnd_flatMap (List.mem_cons_of_mem _ hclose)) h
      obtain ⟨rfl, after⟩ := ih (fun x' hx' => hx x' (List.mem_cons_of_mem _ hx')) rest
      exact ⟨rfl, after⟩

/-- Values with commas between them are read back up to the bracket that closes them. -/
theorem joined_inj (hclose : close ∈ [']', '\x7d'])
    (starts : ∀ x : α, ∃ c rest, write x = c :: rest ∧ c ∉ ends) (hx : ∀ x ∈ xs, ReadsBack write x)
    (h : joined (xs.map write) ++ close :: s = joined (ys.map write) ++ close :: t) :
    xs = ys ∧ s = t := by
  have closes := List.mem_cons_of_mem ',' hclose
  cases xs with
  | nil =>
    cases ys with
    | nil => exact ⟨rfl, (List.cons.inj h).2⟩
    | cons y ys =>
      obtain ⟨c, rest, shape, other⟩ := starts y
      rw [List.map_cons, joined_cons, shape] at h
      exact absurd ((List.cons.inj h).1 ▸ closes) other
  | cons x xs =>
    cases ys with
    | nil =>
      obtain ⟨c, rest, shape, other⟩ := starts x
      rw [List.map_cons, joined_cons, shape] at h
      exact absurd ((List.cons.inj h).1.symm ▸ closes) other
    | cons y ys =>
      rw [List.map_cons, List.map_cons, joined_cons, joined_cons, List.append_assoc,
        List.append_assoc, List.flatMap_map, List.flatMap_map] at h
      obtain ⟨rfl, rest⟩ := hx x List.mem_cons_self y _ _ (isEnd_flatMap closes)
        (isEnd_flatMap closes) h
      obtain ⟨rfl, after⟩ :=
        flatMap_inj hclose (fun x' hx' => hx x' (List.mem_cons_of_mem _ hx')) rest
      exact ⟨rfl, after⟩

end

theorem isDigit_of_mem_intChars {n : ℤ} {c : Char} (h : c ∈ intChars n) :
    c.isDigit = true ∨ c = '-' := by
  have digits := Number.isDigit_toDigits n.natAbs
  unfold intChars at h
  split at h
  · rcases List.mem_cons.mp h with sign | digit
    · exact .inr sign
    · exact .inl (digits c digit)
  · exact .inl (digits c h)

theorem intChars_inj {m n : ℤ} (h : intChars m = intChars n) : m = n := by
  have read : ∀ {m n : ℕ}, Nat.toDigits 10 m = Nat.toDigits 10 n → m = n := by
    intro m n same
    have := congrArg (Nat.ofDigitChars 10 · 0) same
    simpa only [Nat.ofDigitChars_ten_toDigits] using this
  have unsigned : ∀ {n : ℕ} {rest : List Char}, Nat.toDigits 10 n ≠ '-' :: rest := by
    intro n rest same
    have := Number.isDigit_toDigits n '-' (same ▸ List.mem_cons_self)
    exact absurd this (by decide)
  unfold intChars at h
  split at h
  · split at h
    · have := read (List.cons.inj h).2
      omega
    · exact absurd h.symm unsigned
  · split at h
    · exact absurd h unsigned
    · have := read h
      omega

theorem notMem_intChars {n : ℤ} {c : Char} (hc : c ∈ ends) : c ∉ intChars n := by
  have other : ∀ c ∈ ends, c.isDigit = false ∧ c ≠ '-' := by simp [ends]
  intro h
  rcases isDigit_of_mem_intChars h with digit | sign
  · rw [(other c hc).1] at digit
    cases digit
  · exact (other c hc).2 sign

theorem intChars_ne_text (n : ℤ) (x : Float) :
    intChars n ≠ (Number.text Number.document x).toList := by
  intro same
  obtain ⟨c, hc, notDigit, notSign⟩ := Number.exists_mem_text x
  rcases isDigit_of_mem_intChars (same ▸ hc) with digit | sign
  · rw [notDigit] at digit
    cases digit
  · exact notSign sign

/-- The kind of a document, as its first character shows it. -/
def kind : Json → Char
  | .null => 'n'
  | .bool true => 't'
  | .bool false => 'f'
  | .int _ | .float _ => '0'
  | .str _ => '"'
  | .arr _ => '['
  | .obj _ => '\x7b'

/-- The kind of the documents that begin with a character. -/
def kindOf (c : Char) : Char := if c.isDigit || ['-', 'N', 'I'].contains c then '0' else c

theorem plainChars_eq_cons (j : Json) : ∃ c rest, plainChars j = c :: rest ∧ kindOf c = kind j := by
  cases j with
  | null => exact ⟨'n', _, rfl, rfl⟩
  | bool b => cases b <;> exact ⟨_, _, rfl, rfl⟩
  | int n =>
    obtain ⟨c, rest, shape⟩ := List.exists_cons_of_ne_nil (show intChars n ≠ [] by
      unfold intChars
      split
      · exact List.cons_ne_nil _ _
      · exact Nat.toDigits_ne_nil)
    refine ⟨c, rest, shape, ?_⟩
    rcases isDigit_of_mem_intChars (shape ▸ List.mem_cons_self) with digit | sign
    · simp [kindOf, kind, digit]
    · rw [sign]
      rfl
  | float x =>
    obtain ⟨c, rest, shape, first⟩ := Number.text_eq_cons x
    refine ⟨c, rest, shape, ?_⟩
    rcases first with digit | other
    · simp [kindOf, kind, digit]
    · have all : ∀ c ∈ ['-', 'N', 'I'], kindOf c = '0' := by simp [kindOf]
      exact all c other
  | str s => exact ⟨'"', _, rfl, rfl⟩
  | arr items => exact ⟨'[', _, rfl, rfl⟩
  | obj members => exact ⟨'\x7b', _, rfl, rfl⟩

theorem plainChars_starts (j : Json) : ∃ c rest, plainChars j = c :: rest ∧ c ∉ ends := by
  have kinds : kind j ∈ ['n', 't', 'f', '0', '"', '[', '\x7b'] := by
    cases j with
    | bool b => cases b <;> simp [kind]
    | _ => simp [kind]
  have other : ∀ c ∈ ends, kindOf c ∉ ['n', 't', 'f', '0', '"', '[', '\x7b'] := by
    simp [ends, kindOf]
  obtain ⟨c, rest, shape, same⟩ := plainChars_eq_cons j
  exact ⟨c, rest, shape, fun hc => other c hc (same ▸ kinds)⟩

/-- Texts that begin alike are of one kind. -/
theorem kind_eq_of_append {j k : Json} {s t : List Char}
    (h : plainChars j ++ s = plainChars k ++ t) : kind j = kind k := by
  obtain ⟨c, rest, shape, same⟩ := plainChars_eq_cons j
  obtain ⟨c', rest', shape', same'⟩ := plainChars_eq_cons k
  rw [shape, shape'] at h
  rw [← same, ← same', (List.cons.inj h).1]

theorem readsBack_memberChars {m : String × Json} (hm : ReadsBack plainChars m.2) :
    ReadsBack (fun m : String × Json => memberChars (m.1, plainChars m.2)) m := by
  intro y s t hs ht h
  simp only [memberChars, List.append_assoc] at h
  obtain ⟨name, h⟩ := textChars_append_inj h
  obtain ⟨value, rest⟩ := hm y.2 s t hs ht (List.cons.inj h).2
  exact ⟨Prod.ext name value, rest⟩

/-- A document that is known by its kind is read back. -/
theorem readsBack_word {j : Json} (only : ∀ k, kind k = kind j → k = j) :
    ReadsBack plainChars j := by
  intro k s t _ _ h
  obtain rfl := only k (kind_eq_of_append h).symm
  exact ⟨rfl, List.append_cancel_left h⟩

theorem null_of_kind {j : Json} (h : kind j = 'n') : j = .null := by
  unfold kind at h
  split at h <;> simp_all

theorem true_of_kind {j : Json} (h : kind j = 't') : j = .bool true := by
  unfold kind at h
  split at h <;> simp_all

theorem false_of_kind {j : Json} (h : kind j = 'f') : j = .bool false := by
  unfold kind at h
  split at h <;> simp_all

theorem number_of_kind {j : Json} (h : kind j = '0') :
    (∃ n, j = .int n) ∨ ∃ x, j = .float x := by
  unfold kind at h
  split at h <;> simp_all

theorem str_of_kind {j : Json} (h : kind j = '"') : ∃ s, j = .str s := by
  unfold kind at h
  split at h <;> simp_all

theorem arr_of_kind {j : Json} (h : kind j = '[') : ∃ items, j = .arr items := by
  unfold kind at h
  split at h <;> simp_all

theorem obj_of_kind {j : Json} (h : kind j = '\x7b') : ∃ members, j = .obj members := by
  unfold kind at h
  split at h <;> simp_all

/-- Numbers are read back: no whole number has the text of a double. -/
theorem readsBack_number {j : Json} (number : kind j = '0') : ReadsBack plainChars j := by
  have plain : ∀ k, kind k = '0' → ∀ c ∈ ends, c ∉ plainChars k := by
    intro k hk c hc
    rcases number_of_kind hk with ⟨n, rfl⟩ | ⟨x, rfl⟩
    · exact notMem_intChars hc
    · exact Number.notMem_text x hc
  intro k s t hs ht h
  have other := (kind_eq_of_append h).symm.trans number
  obtain ⟨texts, rest⟩ := append_inj_of_isEnd (plain j number) (plain k other) hs ht h
  refine ⟨?_, rest⟩
  rcases number_of_kind number with ⟨m, rfl⟩ | ⟨x, rfl⟩
  · rcases number_of_kind other with ⟨n, rfl⟩ | ⟨y, rfl⟩
    · exact congrArg Json.int (intChars_inj texts)
    · exact absurd texts (intChars_ne_text m y)
  · rcases number_of_kind other with ⟨n, rfl⟩ | ⟨y, rfl⟩
    · exact absurd texts.symm (intChars_ne_text n x)
    · exact congrArg Json.float (Number.text_injective (String.toList_inj.mp texts))

mutual

/-- A document is read back from its plain text. -/
theorem readsBack_plainChars : ∀ j : Json, ReadsBack plainChars j
  | .null => readsBack_word fun _ => null_of_kind
  | .bool true => readsBack_word fun _ => true_of_kind
  | .bool false => readsBack_word fun _ => false_of_kind
  | .int _ => readsBack_number rfl
  | .float _ => readsBack_number rfl
  | .str a => by
    intro k s t _ _ h
    obtain ⟨b, rfl⟩ := str_of_kind (kind_eq_of_append h).symm
    obtain ⟨rfl, rest⟩ := textChars_append_inj h
    exact ⟨rfl, rest⟩
  | .arr items => by
    intro k s t _ _ h
    obtain ⟨items', rfl⟩ := arr_of_kind (kind_eq_of_append h).symm
    simp only [plainChars, plainItems_eq, List.cons_append, List.append_assoc, List.cons.injEq,
      true_and] at h
    obtain ⟨rfl, rest⟩ := joined_inj (by decide) plainChars_starts (readsBack_items items) h
    exact ⟨rfl, rest⟩
  | .obj members => by
    intro k s t _ _ h
    obtain ⟨members', rfl⟩ := obj_of_kind (kind_eq_of_append h).symm
    simp only [plainChars, plainMembers_eq, List.cons_append, List.append_assoc, List.cons.injEq,
      true_and] at h
    obtain ⟨rfl, rest⟩ := joined_inj (by decide) (fun m => ⟨'"', _, rfl, by decide⟩)
      (fun m hm => readsBack_memberChars (readsBack_members members m hm)) h
    exact ⟨rfl, rest⟩

theorem readsBack_items : ∀ items : List Json, ∀ j ∈ items, ReadsBack plainChars j
  | [], _, hj => by cases hj
  | j :: rest, j', hj => by
    rcases List.mem_cons.mp hj with hj | hj
    · rw [hj]
      exact readsBack_plainChars j
    · exact readsBack_items rest j' hj

theorem readsBack_members : ∀ members : Members Json, ∀ m ∈ members, ReadsBack plainChars m.2
  | [], _, hm => by cases hm
  | (name, j) :: rest, m, hm => by
    rcases List.mem_cons.mp hm with hm | hm
    · rw [hm]
      exact readsBack_plainChars j
    · exact readsBack_members rest m hm

end

/-- Documents have one canonical text exactly when they differ in the order of members at most. -/
theorem canonical_eq_iff {a b : Json} : a.canonical = b.canonical ↔ a.arranged = b.arranged := by
  unfold canonical
  rw [canonicalChars_eq, canonicalChars_eq]
  constructor
  · intro same
    have texts : plainChars a.arranged ++ [] = plainChars b.arranged ++ [] := by
      rw [List.append_nil, List.append_nil]
      exact String.ofList_inj.mp same
    exact (readsBack_plainChars _ _ _ _ isEnd_nil isEnd_nil texts).1
  · intro same
    rw [same]

end EntityRules.Json
