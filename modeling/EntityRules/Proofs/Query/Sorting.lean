import EntityRules.Query.Order

/-! Sorting looks at items through their comparison only. -/

namespace EntityRules.Order

variable {α β : Type} (f : α → β)

theorem boundary_map (upper : Bool) (test : β → Bool) (xs : List α) (fuel low high : Nat) :
    boundary upper test (xs.map f) fuel low high =
      boundary upper (fun x => test (f x)) xs fuel low high := by
  induction fuel generalizing low high with
  | zero => rfl
  | succ fuel ih =>
    have met : ∀ i : Nat, (xs.map f)[i]?.any test = xs[i]?.any fun x => test (f x) := by
      intro i
      rw [List.getElem?_map, Option.any_map]
    simp only [boundary, met, ih]

theorem stride_map (test : β → Bool) (xs : List α) (fuel last next : Nat) :
    stride test (xs.map f) fuel last next = stride (fun x => test (f x)) xs fuel last next := by
  induction fuel generalizing last next with
  | zero => rfl
  | succ fuel ih =>
    rw [stride, stride, List.getElem?_map, List.length_map]
    cases xs[next]? with
    | none => rfl
    | some x => simp only [Option.map_some, ih]

theorem gallop_map (upper : Bool) (test : β → Bool) (xs : List α) :
    gallop upper test (xs.map f) = gallop upper (fun x => test (f x)) xs := by
  cases xs with
  | nil => rfl
  | cons x rest =>
    have strides := stride_map f test (x :: rest)
    have boundaries := boundary_map f upper test (x :: rest)
    rw [List.map_cons] at strides boundaries ⊢
    simp only [gallop, strides, boundaries, List.length_cons, List.length_map]

namespace Merging

/-- A merging of the items that stand for others. -/
def map (m : Merging α) : Merging β := ⟨m.done.map f, m.short.map f, m.long.map f⟩

/-- What a step comes to for the items that stand for others. -/
def carried {γ δ : Type} (g : γ → δ) : Except (List α) γ → Except (List β) δ
  | .error out => .error (out.map f)
  | .ok m => .ok (g m)

theorem finished_map (m : Merging α) : (m.map f).finished = m.finished.map f := by
  simp [finished, map]

theorem takeLong_map (m : Merging α) (n : Nat) :
    (m.map f).takeLong n = carried f (map f) (m.takeLong n) := by
  have taken : { m.map f with
      done := ((m.map f).long.take n).reverse ++ (m.map f).done, long := (m.map f).long.drop n } =
      map f { m with done := (m.long.take n).reverse ++ m.done, long := m.long.drop n } := by
    simp [map]
  unfold takeLong
  rw [taken]
  dsimp only
  rw [finished_map, map, List.isEmpty_map]
  split <;> rfl

theorem takeShort_map (m : Merging α) (n : Nat) :
    (m.map f).takeShort n = carried f (map f) (m.takeShort n) := by
  have taken : { m.map f with
      done := ((m.map f).short.take n).reverse ++ (m.map f).done
      short := (m.map f).short.drop n } =
      map f { m with done := (m.short.take n).reverse ++ m.done, short := m.short.drop n } := by
    simp [map]
  unfold takeShort
  rw [taken]
  dsimp only
  rw [finished_map, map]
  dsimp only
  match m.short.drop n with
  | [] | [_] | _ :: _ :: _ => rfl

section

variable {f} {first : α → α → Bool} {first' : β → β → Bool}

theorem gallopLong_map (h : ∀ a b, first' (f a) (f b) = first a b) (upper : Bool) (m : Merging α) :
    (m.map f).gallopLong upper first' =
      carried f (Prod.map id (map f)) (m.gallopLong upper first) := by
  obtain ⟨done, short, long⟩ := m
  cases short with
  | nil => exact congrArg Except.error (finished_map f _)
  | cons s rest =>
    have counts : gallop upper (first' · (f s)) (long.map f) = gallop upper (first · s) long := by
      simp only [gallop_map, h]
    have takes := takeLong_map f ⟨done, s :: rest, long⟩ (gallop upper (first · s) long)
    unfold gallopLong
    rw [map] at takes ⊢
    simp only [List.map_cons, counts] at takes ⊢
    rw [takes]
    cases (⟨done, s :: rest, long⟩ : Merging α).takeLong (gallop upper (first · s) long) with
    | error out => rfl
    | ok m =>
      simp only [carried, Except.bind, takeShort_map]
      cases m.takeShort 1 <;> rfl

theorem gallopShort_map (h : ∀ a b, first' (f a) (f b) = first a b) (upper : Bool)
    (m : Merging α) :
    (m.map f).gallopShort upper first' =
      carried f (Prod.map id (map f)) (m.gallopShort upper first) := by
  obtain ⟨done, short, long⟩ := m
  cases long with
  | nil => exact congrArg Except.error (finished_map f _)
  | cons l rest =>
    have counts : gallop upper (fun s => !first' (f l) s) (short.map f) =
        gallop upper (fun s => !first l s) short := by
      simp only [gallop_map, h]
    have takes := takeShort_map f ⟨done, short, l :: rest⟩
      (gallop upper (fun s => !first l s) short)
    unfold gallopShort
    rw [map] at takes ⊢
    simp only [List.map_cons, counts] at takes ⊢
    rw [takes]
    cases (⟨done, short, l :: rest⟩ : Merging α).takeShort
        (gallop upper (fun s => !first l s) short) with
    | error out => rfl
    | ok m =>
      simp only [carried, Except.bind, takeLong_map]
      cases m.takeLong 1 <;> rfl

theorem gallopBoth_map (h : ∀ a b, first' (f a) (f b) = first a b) (upper : Bool)
    (m : Merging α) :
    (m.map f).gallopBoth upper first' =
      carried f (Prod.map id (map f)) (m.gallopBoth upper first) := by
  cases upper with
  | true =>
    simp only [gallopBoth, if_true, gallopLong_map h]
    cases m.gallopLong true first with
    | error out => rfl
    | ok a =>
      simp only [carried, Except.bind, Prod.map, gallopShort_map h]
      cases a.2.gallopShort true first <;> rfl
  | false =>
    simp only [gallopBoth, Bool.false_eq_true, if_false, gallopShort_map h]
    cases m.gallopShort false first with
    | error out => rfl
    | ok a =>
      simp only [carried, Except.bind, Prod.map, gallopLong_map h]
      cases a.2.gallopLong false first <;> rfl

/-- The steps of a merging take the same places, and patience runs out at the same step. -/
theorem run_map (h : ∀ a b, first' (f a) (f b) = first a b) (upper : Bool) (fuel patience : Nat)
    (pace : Pace) (m : Merging α) :
    run upper first' fuel patience pace (m.map f) =
      Prod.map (List.map f) id (run upper first fuel patience pace m) := by
  induction fuel generalizing patience pace m with
  | zero => simp [run, finished_map]
  | succ fuel ih =>
    cases pace with
    | stretches =>
      simp only [run, gallopBoth_map h]
      cases m.gallopBoth upper first with
      | error out => rfl
      | ok a =>
        simp only [carried, Prod.map, id_eq, ih]
        split <;> rfl
    | single long short =>
      have takesLong := takeLong_map f m 1
      have takesShort := takeShort_map f m 1
      have ends := finished_map f m
      obtain ⟨done, shorts, longs⟩ := m
      cases longs with
      | nil => exact congrArg (·, patience) ends
      | cons l longs =>
        cases shorts with
        | nil => exact congrArg (·, patience) ends
        | cons s shorts =>
          simp only [map, List.map_cons] at takesLong takesShort ⊢
          simp only [run, h]
          rw [takesLong, takesShort]
          split
          · cases takeLong ⟨done, s :: shorts, l :: longs⟩ 1 with
            | error out => rfl
            | ok m => exact ih _ _ m
          · cases takeShort ⟨done, s :: shorts, l :: longs⟩ 1 with
            | error out => rfl
            | ok m => exact ih _ _ m

theorem start_map (h : ∀ a b, first' (f a) (f b) = first a b) (upper : Bool) (patience : Nat)
    (short long : List α) :
    start upper first' patience (short.map f) (long.map f) =
      Prod.map (List.map f) id (start upper first patience short long) := by
  have takes := takeLong_map f ⟨[], short, long⟩ 1
  rw [map, List.map_nil] at takes
  unfold start
  dsimp only
  rw [takes]
  cases takeLong (⟨[], short, long⟩ : Merging α) 1 with
  | error out => rfl
  | ok m =>
    have ends := finished_map f m
    have runs := run_map h upper (short.length + long.length) patience (.single 0 0) m
    obtain ⟨done, shorts, longs⟩ := m
    simp only [carried, map, List.length_map] at ends runs ⊢
    match shorts with
    | [] | [_] => exact congrArg (·, patience) ends
    | _ :: _ :: _ => exact runs

end

end Merging

section

variable {f} {less : α → α → Bool} {less' : β → β → Bool}

theorem mergeRuns_map (h : ∀ a b, less' (f a) (f b) = less a b) (patience : Nat)
    (xs ys : List α) :
    mergeRuns less' patience (xs.map f) (ys.map f) =
      Prod.map (List.map f) id (mergeRuns less patience xs ys) := by
  cases ys with
  | nil => rfl
  | cons y rest =>
    have settled : gallop false (fun x => !less' (f y) x) (xs.map f) =
        gallop false (fun x => !less y x) xs := by
      simp only [gallop_map, h]
    have kept : ∀ x, gallop true (fun y => !less' y (f x)) ((y :: rest).map f).reverse =
        gallop true (fun y => !less y x) (y :: rest).reverse := by
      intro x
      rw [← List.map_reverse, gallop_map]
      simp only [h]
    unfold mergeRuns
    rw [List.map_cons] at kept ⊢
    dsimp only
    rw [settled, ← List.map_drop, List.getLast?_map, ← List.map_cons]
    cases (xs.drop (gallop false (fun x => !less y x) xs)).getLast? with
    | none => simp
    | some x =>
      dsimp only [Option.map_some]
      rw [List.map_cons, kept, ← List.map_cons, List.length_map]
      generalize gallop false (fun x => !less y x) xs = i
      generalize (y :: rest).length - gallop true (fun y => !less y x) (y :: rest).reverse = j
      generalize y :: rest = ys
      rw [← List.map_take, List.isEmpty_map, List.length_map, List.length_map]
      split
      · simp
      · have behind : ∀ merged : List α, (xs.map f).take i ++ (merged.map f ++ (ys.map f).drop j) =
            (xs.take i ++ (merged ++ ys.drop j)).map f := by
          simp
        split
        · rw [Merging.start_map h]
          exact congrArg (·, _) (behind _)
        · have turned : ∀ a b, (fun l s => less' s l) (f a) (f b) = (fun l s => less s l) a b :=
            fun a b => h b a
          rw [← List.map_reverse, ← List.map_reverse, Merging.start_map turned]
          dsimp only [Prod.map]
          rw [← List.map_reverse]
          exact congrArg (·, _) (behind _)

theorem insert_map (h : ∀ a b, less' (f a) (f b) = less a b) (xs : List α) (x : α) :
    insert less' (xs.map f) (f x) = (insert less xs x).map f := by
  simp [insert, boundary_map, h]

theorem foldl_insert_map (h : ∀ a b, less' (f a) (f b) = less a b) (rest start : List α) :
    (rest.map f).foldl (insert less') (start.map f) = (rest.foldl (insert less) start).map f := by
  induction rest generalizing start with
  | nil => rfl
  | cons x rest ih => rw [List.map_cons, List.foldl_cons, List.foldl_cons, insert_map h, ih]

theorem runLength_map {related : α → α → Bool} {related' : β → β → Bool}
    (h : ∀ a b, related' (f a) (f b) = related a b) (xs : List α) :
    runLength related' (xs.map f) = runLength related xs := by
  induction xs with
  | nil => rfl
  | cons x rest ih =>
    cases rest with
    | nil => rfl
    | cons y rest =>
      rw [List.map_cons] at ih
      simp only [List.map_cons, runLength, h] at ih ⊢
      rw [ih]

theorem sortedStart_map (h : ∀ a b, less' (f a) (f b) = less a b) (xs : List α) :
    sortedStart less' (xs.map f) =
      Prod.map (List.map f) (List.map f) (sortedStart less xs) := by
  match xs with
  | [] | [_] => rfl
  | x :: y :: rest =>
    have falling : runLength (fun a b => less' b a) ((x :: y :: rest).map f) =
        runLength (fun a b => less b a) (x :: y :: rest) :=
      runLength_map (fun a b => h b a) _
    have rising : runLength (fun a b => !less' b a) ((x :: y :: rest).map f) =
        runLength (fun a b => !less b a) (x :: y :: rest) :=
      runLength_map (fun a b => congrArg (!·) (h b a)) _
    simp only [List.map_cons] at falling rising
    simp only [List.map_cons, sortedStart, h, falling, rising]
    split <;> simp

theorem nextRun_map (h : ∀ a b, less' (f a) (f b) = less a b) (least : Nat) (xs : List α) :
    nextRun less' least (xs.map f) =
      Prod.map (List.map f) (List.map f) (nextRun less least xs) := by
  unfold nextRun
  rw [sortedStart_map h]
  dsimp only [Prod.map]
  rw [List.length_map, ← List.map_take, ← List.map_drop, foldl_insert_map h]

variable (f) in
/-- A run of the items that stand for others. -/
def Run.map (r : Run α) : Run β := { r with items := r.items.map f }

variable (f) in
/-- Runs that wait, of the items that stand for others. -/
def Pending.map (p : Pending α) : Pending β := ⟨p.runs.map (Run.map f), p.patience⟩

theorem Run.merge_map (h : ∀ a b, less' (f a) (f b) = less a b) (patience : Nat) (a b : Run α) :
    (a.map f).merge less' patience (b.map f) =
      Prod.map (Run.map f) id (a.merge less patience b) := by
  simp only [Run.merge, Run.map, mergeRuns_map h]
  rfl

theorem mergeDeeper_map (h : ∀ a b, less' (f a) (f b) = less a b) (depth fuel : Nat)
    (runs : List (Run α)) (patience : Nat) :
    mergeDeeper less' depth fuel (runs.map (Run.map f)) patience =
      (mergeDeeper less depth fuel runs patience).map f := by
  induction fuel generalizing runs patience with
  | zero => simp [mergeDeeper, Pending.map]
  | succ fuel ih =>
    rcases runs with _ | ⟨b, _ | ⟨a, rest⟩⟩
    · rfl
    · rfl
    · simp only [List.map_cons, mergeDeeper, Run.merge_map h, Prod.map]
      rw [← List.map_cons, ih]
      change (if depth < a.depth then _ else _) = _
      split <;> rfl

theorem Pending.push_map (h : ∀ a b, less' (f a) (f b) = less a b) (n : Nat) (p : Pending α)
    (items : List α) :
    (p.map f).push less' n (items.map f) = (p.push less n items).map f := by
  obtain ⟨runs, patience⟩ := p
  cases runs with
  | nil => rfl
  | cons top rest =>
    have merged := fun depth => mergeDeeper_map h depth (rest.length + 1) (top :: rest) patience
    have length : (top.map f).items.length = top.items.length := List.length_map f
    have place : (top.map f).place = top.place := rfl
    simp only [List.map_cons] at merged
    simp only [Pending.push, Pending.map, List.map_cons, List.length_cons, List.length_map, length,
      place, merged]
    generalize parting n (2 * n) (2 * top.place + top.items.length)
      (2 * top.place + top.items.length + top.items.length + items.length) = depth
    generalize mergeDeeper less depth (rest.length + 1) (top :: rest) patience = p
    obtain ⟨runs, patience⟩ := p
    cases runs with
    | nil => rfl
    | cons top rest => simp [Run.map]

theorem pushRuns_map (h : ∀ a b, less' (f a) (f b) = less a b) (n least fuel : Nat)
    (xs : List α) (p : Pending α) :
    pushRuns less' n least fuel (xs.map f) (p.map f) =
      (pushRuns less n least fuel xs p).map f := by
  induction fuel generalizing xs p with
  | zero => rfl
  | succ fuel ih =>
    cases xs with
    | nil => rfl
    | cons x rest =>
      have next := nextRun_map h least (x :: rest)
      rw [List.map_cons] at next ⊢
      simp only [pushRuns, next, Prod.map, Pending.push_map h, ih]

theorem mergeAll_map (h : ∀ a b, less' (f a) (f b) = less a b) (fuel : Nat)
    (runs : List (Run α)) (patience : Nat) :
    mergeAll less' fuel (runs.map (Run.map f)) patience =
      (mergeAll less fuel runs patience).map f := by
  have ends : ∀ runs : List (Run α), (runs.map (Run.map f)).reverse.flatMap (·.items) =
      (runs.reverse.flatMap (·.items)).map f := by
    intro runs
    rw [← List.map_reverse, List.flatMap_map, List.map_flatMap]
    rfl
  induction fuel generalizing runs patience with
  | zero => exact ends runs
  | succ fuel ih =>
    match runs with
    | [] => rfl
    | [r] => exact ends [r]
    | [b, a] =>
      have merged := Run.merge_map h patience a b
      simp only [List.map_cons, List.map_nil, mergeAll, merged]
      rfl
    | c :: b :: a :: rest =>
      have early := Run.merge_map h patience a b
      have late := Run.merge_map h patience b c
      have length : ∀ r : Run α, (r.map f).items.length = r.items.length :=
        fun r => List.length_map f
      simp only [List.map_cons, mergeAll, early, late, length, Prod.map, id_eq]
      split
      · exact ih (c :: (a.merge less patience b).1 :: rest) _
      · exact ih ((b.merge less patience c).1 :: a :: rest) _

/-- Sorting commutes with replacing items by others that compare alike. -/
theorem sort_map (h : ∀ a b, less' (f a) (f b) = less a b) (xs : List α) :
    sort less' (xs.map f) = (sort less xs).map f := by
  have pushed := pushRuns_map h xs.length (leastRun xs.length) xs.length xs { runs := [] }
  unfold sort
  rw [List.length_map]
  dsimp only
  rw [show ({ runs := [] } : Pending β) = Pending.map f { runs := [] } from rfl, pushed,
    Pending.map, List.length_map, mergeAll_map h]

theorem sortDown_map (h : ∀ a b, less' (f a) (f b) = less a b) (xs : List α) :
    sortDown less' (xs.map f) = (sortDown less xs).map f := by
  rw [sortDown, sortDown, ← List.map_reverse, sort_map h, List.map_reverse]

end

end EntityRules.Order
