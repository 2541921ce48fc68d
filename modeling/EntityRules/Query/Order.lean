import EntityRules.Query.Order.Merge

/-! Sorting by merging runs. -/

namespace EntityRules.Order

variable {α : Type}

/-- Puts an item among sorted ones, behind those that it is not less than. -/
def insert (less : α → α → Bool) (xs : List α) (x : α) : List α :=
  let i := boundary false (fun y => !less x y) xs (xs.length + 1) 0 xs.length
  xs.take i ++ x :: xs.drop i

/-- How many items at the start of a list are each related to the next one. -/
def runLength (related : α → α → Bool) : List α → Nat
  | [] => 0
  | [_] => 1
  | x :: y :: rest => if related x y then runLength related (y :: rest) + 1 else 1

/-- Cuts a list behind the sorted items at its start. Items that get less from one to the next are
sorted by reversing them. -/
def sortedStart (less : α → α → Bool) (xs : List α) : List α × List α :=
  match xs with
  | x :: y :: _ =>
    if less y x then
      let n := runLength (fun a b => less b a) xs
      ((xs.take n).reverse, xs.drop n)
    else
      let n := runLength (fun a b => !less b a) xs
      (xs.take n, xs.drop n)
  | _ => (xs, [])

/-- How many items a run has at least, unless it is the last one: a number between 32 and 64, by
which the count of all items is divided into about a power of two; all items if there are fewer
than 64. -/
def leastRun (n : Nat) : Nat :=
  if n < 64 then n else (leastRunOver n false)
where
  /-- Halves a number until it is below 64; one more if something was lost on the way. -/
  leastRunOver (n : Nat) (lost : Bool) : Nat :=
    if n < 64 then n + (if lost then 1 else 0)
    else leastRunOver (n / 2) (lost || n % 2 = 1)

/-- Cuts a list behind its first run. A run that is too short is filled up by inserting items. -/
def nextRun (less : α → α → Bool) (least : Nat) (xs : List α) : List α × List α :=
  let (start, rest) := sortedStart less xs
  let more := least - start.length
  ((rest.take more).foldl (insert less) start, rest.drop more)

/-- How deep in a tree of halves of `n` items two neighbouring runs part, given twice the places of
their middles. -/
def parting (n : Nat) : Nat → Nat → Nat → Nat
  | 0, _, _ => 1
  | fuel + 1, a, b =>
    if n ≤ a then parting n fuel (2 * (a - n)) (2 * (b - n)) + 1
    else if n ≤ b then 1
    else parting n fuel (2 * a) (2 * b) + 1

/-- A run among others: the place of its first item, its items, and how deep it parts from the run
after it. -/
structure Run (α : Type) where
  place : Nat
  items : List α
  depth : Nat := 0

/-- Runs that wait to be merged, the last one first, and the patience of the merges so far. -/
structure Pending (α : Type) where
  runs : List (Run α)
  patience : Nat := Merging.worthwhile

/-- Merges two runs, the first one standing before the second one. -/
def Run.merge (less : α → α → Bool) (patience : Nat) (a b : Run α) : Run α × Nat :=
  let (items, patience) := mergeRuns less patience a.items b.items
  ({ a with items }, patience)

/-- Merges the last runs as long as they part deeper than a given depth. -/
def mergeDeeper (less : α → α → Bool) (depth : Nat) : Nat → List (Run α) → Nat → Pending α
  | fuel + 1, b :: a :: rest, patience =>
    if depth < a.depth then
      let (run, patience) := a.merge less patience b
      mergeDeeper less depth fuel (run :: rest) patience
    else ⟨b :: a :: rest, patience⟩
  | _, runs, patience => ⟨runs, patience⟩

/-- Adds a run of a list of `n` items behind the others. -/
def Pending.push (less : α → α → Bool) (n : Nat) (p : Pending α) (items : List α) : Pending α :=
  match p.runs with
  | [] => { p with runs := [{ place := 0, items }] }
  | top :: _ =>
    let middle := 2 * top.place + top.items.length
    let depth := parting n (2 * n) middle (middle + top.items.length + items.length)
    let merged := mergeDeeper less depth p.runs.length p.runs p.patience
    match merged.runs with
    | [] => { merged with runs := [{ place := 0, items }] }
    | top :: rest =>
      let place := top.place + top.items.length
      { merged with runs := { place, items } :: { top with depth } :: rest }

/-- Cuts a list into runs and merges them on the way. -/
def pushRuns (less : α → α → Bool) (n least : Nat) : Nat → List α → Pending α → Pending α
  | 0, _, p => p
  | _, [], p => p
  | fuel + 1, xs, p =>
    let (run, rest) := nextRun less least xs
    pushRuns less n least fuel rest (p.push less n run)

/-- Merges all runs, the last two of them first unless the one before is shorter than the last. -/
def mergeAll (less : α → α → Bool) : Nat → List (Run α) → Nat → List α
  | fuel + 1, c :: b :: a :: rest, patience =>
    if a.items.length < c.items.length then
      let (run, patience) := a.merge less patience b
      mergeAll less fuel (c :: run :: rest) patience
    else
      let (run, patience) := b.merge less patience c
      mergeAll less fuel (run :: a :: rest) patience
  | _ + 1, [b, a], patience => (a.merge less patience b).1.items
  | _, runs, _ => runs.reverse.flatMap (·.items)

/-- Sorts a list. -/
def sort (less : α → α → Bool) (xs : List α) : List α :=
  let p := pushRuns less xs.length (leastRun xs.length) xs.length xs { runs := [] }
  mergeAll less p.runs.length p.runs p.patience

/-- Sorts a list, the greatest item first; items of which none is less keep their order. -/
def sortDown (less : α → α → Bool) (xs : List α) : List α := (sort less xs.reverse).reverse

theorem insert_perm (less : α → α → Bool) (xs : List α) (x : α) :
    (insert less xs x).Perm (x :: xs) := by
  unfold insert
  exact List.perm_middle.trans (by rw [List.take_append_drop])

theorem foldl_insert_perm (less : α → α → Bool) (rest start : List α) :
    (rest.foldl (insert less) start).Perm (start ++ rest) := by
  induction rest generalizing start with
  | nil => simp
  | cons x rest ih =>
    exact (ih _).trans
      (((insert_perm less start x).append_right rest).trans List.perm_middle.symm)

theorem sortedStart_perm (less : α → α → Bool) (xs : List α) :
    ((sortedStart less xs).1 ++ (sortedStart less xs).2).Perm xs := by
  match xs with
  | [] | [_] => simp [sortedStart]
  | x :: y :: rest =>
    by_cases h : less y x = true
    · simp only [sortedStart, h, if_true]
      refine ((List.reverse_perm _).append_right _).trans ?_
      rw [List.take_append_drop]
    · simp only [sortedStart, h, if_false, Bool.false_eq_true]
      rw [List.take_append_drop]

theorem nextRun_perm (less : α → α → Bool) (least : Nat) (xs : List α) :
    ((nextRun less least xs).1 ++ (nextRun less least xs).2).Perm xs := by
  unfold nextRun
  dsimp only
  refine ((foldl_insert_perm less _ _).append_right _).trans ?_
  rw [List.append_assoc, List.take_append_drop]
  exact sortedStart_perm less xs

theorem sortedStart_ne_nil (less : α → α → Bool) (x : α) (rest : List α) :
    (sortedStart less (x :: rest)).1 ≠ [] := by
  match rest with
  | [] => simp [sortedStart]
  | y :: rest =>
    have h : ∀ related : α → α → Bool, 0 < runLength related (x :: y :: rest) := by
      intro related
      unfold runLength
      split <;> omega
    unfold sortedStart
    dsimp only
    split
    · simpa [Nat.ne_of_gt] using Nat.ne_of_gt (h _)
    · simpa [Nat.ne_of_gt] using Nat.ne_of_gt (h _)

theorem nextRun_ne_nil (less : α → α → Bool) (least : Nat) (x : α) (rest : List α) :
    (nextRun less least (x :: rest)).1 ≠ [] := by
  intro h
  have hp := foldl_insert_perm less
    ((sortedStart less (x :: rest)).2.take
      (least - (sortedStart less (x :: rest)).1.length)) (sortedStart less (x :: rest)).1
  unfold nextRun at h
  dsimp only at h
  rw [h] at hp
  have := hp.length_eq
  simp only [List.length_nil, List.length_append] at this
  exact sortedStart_ne_nil less x rest (List.length_eq_zero_iff.1 (by omega))

/-- The items of all runs that wait. -/
def runItems (runs : List (Run α)) : List α := runs.reverse.flatMap (·.items)

theorem runItems_cons (r : Run α) (runs : List (Run α)) :
    runItems (r :: runs) = runItems runs ++ r.items := by
  simp [runItems]

theorem merge_perm (less : α → α → Bool) (patience : Nat) (a b : Run α) :
    (a.merge less patience b).1.items.Perm (a.items ++ b.items) :=
  mergeRuns_perm less patience a.items b.items

theorem mergeDeeper_perm (less : α → α → Bool) (depth fuel : Nat) (runs : List (Run α))
    (patience : Nat) :
    (runItems (mergeDeeper less depth fuel runs patience).runs).Perm (runItems runs) := by
  induction fuel generalizing runs patience with
  | zero => simp [mergeDeeper]
  | succ fuel ih =>
    match runs with
    | [] | [_] => simp [mergeDeeper]
    | b :: a :: rest =>
      unfold mergeDeeper
      split
      · refine (ih _ _).trans ?_
        rw [runItems_cons, runItems_cons, runItems_cons, List.append_assoc]
        exact (merge_perm ..).append_left _
      · exact .refl _

theorem push_perm (less : α → α → Bool) (n : Nat) (p : Pending α) (items : List α) :
    (runItems (p.push less n items).runs).Perm (runItems p.runs ++ items) := by
  unfold Pending.push
  split
  · next h => simp [runItems, h]
  · next top rest h =>
    dsimp only
    generalize hd : parting n (2 * n) (2 * top.place + top.items.length)
      (2 * top.place + top.items.length + top.items.length + items.length) = depth
    have h' := mergeDeeper_perm less depth p.runs.length p.runs p.patience
    revert h'
    cases mergeDeeper less depth p.runs.length p.runs p.patience with
    | mk runs patience =>
      intro h'
      cases runs with
      | nil =>
        rw [runItems_cons]
        exact h'.append_right _
      | cons top' rest' =>
        rw [runItems_cons, runItems_cons]
        rw [runItems_cons] at h'
        exact h'.append_right _

theorem pushRuns_perm (less : α → α → Bool) (n least fuel : Nat) (xs : List α) (p : Pending α)
    (h : xs.length ≤ fuel) :
    (runItems (pushRuns less n least fuel xs p).runs).Perm (runItems p.runs ++ xs) := by
  induction fuel generalizing xs p with
  | zero =>
    have : xs = [] := by simpa using h
    simp [pushRuns, this]
  | succ fuel ih =>
    match xs with
    | [] => simp [pushRuns]
    | x :: rest =>
      have hp := nextRun_perm less least (x :: rest)
      have hl : (nextRun less least (x :: rest)).2.length ≤ fuel := by
        have h₁ := hp.length_eq
        have h₂ := nextRun_ne_nil less least x rest
        have h₃ : 0 < (nextRun less least (x :: rest)).1.length := List.length_pos_iff.2 h₂
        simp only [List.length_append, List.length_cons] at h₁ h
        omega
      refine (ih _ _ hl).trans (((push_perm ..).append_right _).trans ?_)
      rw [List.append_assoc]
      exact hp.append_left _

theorem mergeAll_perm (less : α → α → Bool) (fuel : Nat) (runs : List (Run α)) (patience : Nat) :
    (mergeAll less fuel runs patience).Perm (runItems runs) := by
  induction fuel generalizing runs patience with
  | zero => simp [mergeAll, runItems]
  | succ fuel ih =>
    match runs with
    | [] | [_] => simp [mergeAll, runItems]
    | [b, a] =>
      refine (merge_perm less patience a b).trans ?_
      simp [runItems]
    | c :: b :: a :: rest =>
      unfold mergeAll
      split
      · refine (ih _ _).trans ?_
        have h := ((merge_perm less patience a b).append_left (runItems rest)).append_right c.items
        simp only [runItems_cons, List.append_assoc] at h ⊢
        exact h
      · refine (ih _ _).trans ?_
        have h := (merge_perm less patience b c).append_left (runItems rest ++ a.items)
        simp only [runItems_cons, List.append_assoc] at h ⊢
        exact h

theorem sort_perm (less : α → α → Bool) (xs : List α) : (sort less xs).Perm xs :=
  (mergeAll_perm ..).trans ((pushRuns_perm _ _ _ _ _ _ (Nat.le_refl _)).trans (by simp [runItems]))

theorem sortDown_perm (less : α → α → Bool) (xs : List α) : (sortDown less xs).Perm xs :=
  (List.reverse_perm _).trans ((sort_perm less _).trans (List.reverse_perm xs))

end EntityRules.Order
