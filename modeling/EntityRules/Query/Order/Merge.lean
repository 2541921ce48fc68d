/-! Merging two runs of sorted items into one. -/

namespace EntityRules.Order

variable {α : Type}

/-- The place of the first item between `low` and `high` that fails a test, by halving. With
`upper`, the upper one of two middle items is tested when the distance is counted from the end. -/
def boundary (upper : Bool) (test : α → Bool) (xs : List α) : Nat → Nat → Nat → Nat
  | 0, _, high => high
  | fuel + 1, low, high =>
    if low < high then
      let width := high - low
      let middle := low + (if upper then (width - 1) / 2 else width / 2)
      if xs[middle]?.any test then boundary upper test xs fuel (middle + 1) high
      else boundary upper test xs fuel low middle
    else high

/-- Steps through a list as long as the items met pass a test, every step being about twice as long
as the one before it. Gives the place of the last item that passed, and where the next step leads,
at most to the end. -/
def stride (test : α → Bool) (xs : List α) : Nat → Nat → Nat → Nat × Nat
  | 0, last, next => (last, next)
  | fuel + 1, last, next =>
    match xs[next]? with
    | none => (last, xs.length)
    | some x => if test x then stride test xs fuel next (2 * next + 1) else (last, next)

/-- How many items at the start of a list pass a test, when those that pass come first. -/
def gallop (upper : Bool) (test : α → Bool) (xs : List α) : Nat :=
  match xs with
  | [] => 0
  | x :: _ =>
    if test x then
      let (last, next) := stride test xs xs.length 0 1
      boundary upper test xs xs.length (last + 1) next
    else 0

/-- How far the merging of two runs has come: the items merged so far, the last one first, and what
is left of the shorter and of the longer run. -/
structure Merging (α : Type) where
  done : List α
  short : List α
  long : List α

namespace Merging

/-- The items in the order in which they stand when nothing is left to compare. -/
def finished (m : Merging α) : List α := m.done.reverse ++ (m.long ++ m.short)

/-- Takes items off the longer run; an empty run ends the merging. -/
def takeLong (m : Merging α) (n : Nat) : Except (List α) (Merging α) :=
  let m' : Merging α :=
    { m with done := (m.long.take n).reverse ++ m.done, long := m.long.drop n }
  if m'.long.isEmpty then .error m'.finished else .ok m'

/-- Takes items off the shorter run. Its last item is greater than all others, so a run of one item
ends the merging. -/
def takeShort (m : Merging α) (n : Nat) : Except (List α) (Merging α) :=
  let m' : Merging α :=
    { m with done := (m.short.take n).reverse ++ m.done, short := m.short.drop n }
  match m'.short with
  | [] | [_] => .error m'.finished
  | _ => .ok m'

/-- Takes what is due from the longer run before the next item of the shorter one, and then that
item. The count of what was due comes with the answer. -/
def gallopLong (upper : Bool) (first : α → α → Bool) (m : Merging α) :
    Except (List α) (Nat × Merging α) :=
  match m.short with
  | [] => .error m.finished
  | s :: _ =>
    let n := gallop upper (first · s) m.long
    ((m.takeLong n).bind (·.takeShort 1)).map (n, ·)

/-- Takes what is due from the shorter run before the next item of the longer one, and then that
item. The count of what was due comes with the answer. -/
def gallopShort (upper : Bool) (first : α → α → Bool) (m : Merging α) :
    Except (List α) (Nat × Merging α) :=
  match m.long with
  | [] => .error m.finished
  | l :: _ =>
    let n := gallop upper (fun s => !first l s) m.short
    ((m.takeShort n).bind (·.takeLong 1)).map (n, ·)

/-- Takes stretches of both runs. Runs that are merged from their ends begin with the longer one. -/
def gallopBoth (upper : Bool) (first : α → α → Bool) (m : Merging α) :
    Except (List α) (Nat × Merging α) :=
  if upper then
    (m.gallopLong upper first).bind fun a =>
      (a.2.gallopShort upper first).map fun b => (max a.1 b.1, b.2)
  else
    (m.gallopShort upper first).bind fun a =>
      (a.2.gallopLong upper first).map fun b => (max a.1 b.1, b.2)

/-- How many items one run has to give in a row for stretches to be worth while. -/
def worthwhile : Nat := 7

/-- Where the merging stands between two comparisons: taking single items, with the numbers of those
taken in a row from the longer and from the shorter run, or taking stretches. -/
inductive Pace where
  | single (long short : Nat)
  | stretches

/-- Merges what is left. `patience` is the number of items in a row from which on stretches are
taken; it comes with the answer as it is in the end. -/
def run (upper : Bool) (first : α → α → Bool) : Nat → Nat → Pace → Merging α → List α × Nat
  | 0, patience, _, m => (m.finished, patience)
  | fuel + 1, patience, .single long short, m =>
    match m.long, m.short with
    | l :: _, s :: _ =>
      if first l s then
        match m.takeLong 1 with
        | .error out => (out, patience)
        | .ok m =>
          run upper first fuel patience
            (if patience ≤ long + 1 then .stretches else .single (long + 1) 0) m
      else
        match m.takeShort 1 with
        | .error out => (out, patience)
        | .ok m =>
          run upper first fuel patience
            (if patience ≤ short + 1 then .stretches else .single 0 (short + 1)) m
    | _, _ => (m.finished, patience)
  | fuel + 1, patience, .stretches, m =>
    match m.gallopBoth upper first with
    | .error out => (out, patience)
    | .ok (n, m) =>
      if worthwhile ≤ n then run upper first fuel (max 1 (patience - 1)) .stretches m
      else run upper first fuel (patience + 1) (.single 0 0) m

/-- Merges a shorter run with a longer one, whose first item is known to come first of all. -/
def start (upper : Bool) (first : α → α → Bool) (patience : Nat) (short long : List α) :
    List α × Nat :=
  let m : Merging α := { done := [], short, long }
  match m.takeLong 1 with
  | .error out => (out, patience)
  | .ok m =>
    match m.short with
    | [] | [_] => (m.finished, patience)
    | _ => run upper first (short.length + long.length) patience (.single 0 0) m

end Merging

/-- Merges two runs, the first one standing before the second one. What stands in its place already
is left there. Whichever of the rests is shorter is set aside; if it is the second one, the runs
are merged from their ends. -/
def mergeRuns (less : α → α → Bool) (patience : Nat) (xs ys : List α) : List α × Nat :=
  match ys with
  | [] => (xs, patience)
  | y :: _ =>
    let settled := gallop false (fun x => !less y x) xs
    let left := xs.drop settled
    match left.getLast? with
    | none => (xs ++ ys, patience)
    | some x =>
      let kept := gallop true (fun y => !less y x) ys.reverse
      let right := ys.take (ys.length - kept)
      if right.isEmpty then (xs ++ ys, patience)
      else
        let (merged, patience) :=
          if left.length ≤ right.length then
            Merging.start false less patience left right
          else
            let (merged, patience) :=
              Merging.start true (fun l s => less s l) patience right.reverse left.reverse
            (merged.reverse, patience)
        (xs.take settled ++ (merged ++ ys.drop (ys.length - kept)), patience)

namespace Merging

/-- All items of both runs. -/
def items (m : Merging α) : List α := m.done ++ (m.long ++ m.short)

/-- Whether a step ends with the items given or goes on with them. -/
def Keeps (xs : List α) : Except (List α) (Merging α) → Prop
  | .error out => out.Perm xs
  | .ok m => m.items.Perm xs

theorem finished_perm (m : Merging α) : m.finished.Perm m.items :=
  (List.reverse_perm _).append_right _

theorem takeLong_keeps (m : Merging α) (n : Nat) : Keeps m.items (m.takeLong n) := by
  have h : (items { m with
      done := (m.long.take n).reverse ++ m.done, long := m.long.drop n }).Perm m.items := by
    have h₁ : ((m.long.take n).reverse ++ m.done).Perm (m.done ++ m.long.take n) :=
      ((List.reverse_perm _).append_right _).trans List.perm_append_comm
    refine (h₁.append_right _).trans (.of_eq ?_)
    rw [items, List.append_assoc, ← List.append_assoc (m.long.take n), List.take_append_drop]
  unfold takeLong
  dsimp only
  split
  · exact (finished_perm _).trans h
  · exact h

theorem takeShort_keeps (m : Merging α) (n : Nat) : Keeps m.items (m.takeShort n) := by
  have h : (items { m with
      done := (m.short.take n).reverse ++ m.done, short := m.short.drop n }).Perm m.items := by
    have h₁ : ((m.short.take n).reverse ++ m.done).Perm (m.done ++ m.short.take n) :=
      ((List.reverse_perm _).append_right _).trans List.perm_append_comm
    have h₂ : (m.short.take n ++ (m.long ++ m.short.drop n)).Perm (m.long ++ m.short) := by
      rw [← List.append_assoc]
      refine (List.perm_append_comm.append_right _).trans (.of_eq ?_)
      rw [List.append_assoc, List.take_append_drop]
    refine (h₁.append_right _).trans ?_
    rw [items, List.append_assoc]
    exact h₂.append_left _
  unfold takeShort
  dsimp only
  split
  · exact (finished_perm _).trans h
  · exact (finished_perm _).trans h
  · exact h

/-- Whether a step that also counts ends with the items given or goes on with them. -/
def KeepsCounted (xs : List α) (r : Except (List α) (Nat × Merging α)) : Prop :=
  Keeps xs (r.map (·.2))

theorem Keeps.bind {xs : List α} {r : Except (List α) (Merging α)}
    {f : Merging α → Except (List α) (Merging α)} (h : Keeps xs r)
    (hf : ∀ m, Keeps m.items (f m)) : Keeps xs (r.bind f) := by
  cases r with
  | error out => exact h
  | ok m =>
    have h' := hf m
    simp only [Except.bind]
    revert h'
    cases f m with
    | error out => exact fun h' => h'.trans h
    | ok m => exact fun h' => h'.trans h

theorem gallopLong_keeps (upper : Bool) (first : α → α → Bool) (m : Merging α) :
    KeepsCounted m.items (m.gallopLong upper first) := by
  unfold gallopLong
  split
  · exact finished_perm m
  · next s rest _ =>
    have h := (takeLong_keeps m (gallop upper (first · s) m.long)).bind fun m =>
      takeShort_keeps m 1
    revert h
    unfold KeepsCounted
    dsimp only
    cases (m.takeLong (gallop upper (first · s) m.long)).bind (·.takeShort 1) <;> exact id

theorem gallopShort_keeps (upper : Bool) (first : α → α → Bool) (m : Merging α) :
    KeepsCounted m.items (m.gallopShort upper first) := by
  unfold gallopShort
  split
  · exact finished_perm m
  · next l rest _ =>
    have h := (takeShort_keeps m (gallop upper (fun s => !first l s) m.short)).bind fun m =>
      takeLong_keeps m 1
    revert h
    unfold KeepsCounted
    dsimp only
    cases (m.takeShort (gallop upper (fun s => !first l s) m.short)).bind (·.takeLong 1) <;>
      exact id

theorem KeepsCounted.bind_max {xs : List α} {r : Except (List α) (Nat × Merging α)}
    {f : Nat × Merging α → Except (List α) (Nat × Merging α)} (h : KeepsCounted xs r)
    (hf : ∀ a, KeepsCounted a.2.items (f a)) :
    KeepsCounted xs (r.bind fun a => (f a).map fun b => (max a.1 b.1, b.2)) := by
  cases r with
  | error out => exact h
  | ok a =>
    have h' := hf a
    unfold KeepsCounted at *
    simp only [Except.bind]
    revert h'
    cases f a with
    | error out => exact fun h' => h'.trans h
    | ok m => exact fun h' => h'.trans h

theorem gallopBoth_keeps (upper : Bool) (first : α → α → Bool) (m : Merging α) :
    KeepsCounted m.items (m.gallopBoth upper first) := by
  unfold gallopBoth
  split
  · exact (gallopLong_keeps upper first m).bind_max fun a => gallopShort_keeps upper first a.2
  · exact (gallopShort_keeps upper first m).bind_max fun a => gallopLong_keeps upper first a.2

theorem run_perm (upper : Bool) (first : α → α → Bool) (fuel patience : Nat) (pace : Pace)
    (m : Merging α) : (run upper first fuel patience pace m).1.Perm m.items := by
  induction fuel generalizing patience pace m with
  | zero => exact finished_perm m
  | succ fuel ih =>
    cases pace with
    | single long short =>
      unfold run
      split
      · split
        · have h := takeLong_keeps m 1
          revert h
          cases m.takeLong 1 with
          | error out => exact id
          | ok m₁ => exact fun h => (ih _ _ m₁).trans h
        · have h := takeShort_keeps m 1
          revert h
          cases m.takeShort 1 with
          | error out => exact id
          | ok m₁ => exact fun h => (ih _ _ m₁).trans h
      · exact finished_perm m
    | stretches =>
      have h := gallopBoth_keeps upper first m
      unfold run
      revert h
      cases m.gallopBoth upper first with
      | error out => exact id
      | ok r =>
        intro h
        dsimp only
        split
        · exact (ih _ _ r.2).trans h
        · exact (ih _ _ r.2).trans h

theorem start_perm (upper : Bool) (first : α → α → Bool) (patience : Nat) (short long : List α) :
    (start upper first patience short long).1.Perm (long ++ short) := by
  have h := takeLong_keeps { done := [], short, long : Merging α } 1
  unfold start
  dsimp only
  revert h
  cases takeLong { done := [], short, long : Merging α } 1 with
  | error out => exact id
  | ok m =>
    intro h
    dsimp only
    split
    · exact (finished_perm m).trans h
    · exact (finished_perm m).trans h
    · exact (run_perm ..).trans h

end Merging

theorem mergeRuns_perm (less : α → α → Bool) (patience : Nat) (xs ys : List α) :
    (mergeRuns less patience xs ys).1.Perm (xs ++ ys) := by
  unfold mergeRuns
  split
  · simp
  · next y rest =>
    dsimp only
    split
    · exact .refl _
    · next x _ =>
      generalize gallop false (fun x => !less y x) xs = i
      generalize (y :: rest).length - gallop true (fun y => !less y x) (y :: rest).reverse = j
      generalize y :: rest = ys
      split
      · exact .refl _
      · have h : ∀ merged : List α, merged.Perm (xs.drop i ++ ys.take j) →
            (xs.take i ++ (merged ++ ys.drop j)).Perm (xs ++ ys) := by
          intro merged hm
          refine ((hm.append_right _).append_left _).trans (.of_eq ?_)
          rw [List.append_assoc, List.take_append_drop, ← List.append_assoc,
            List.take_append_drop]
        split
        · exact h _ ((Merging.start_perm ..).trans List.perm_append_comm)
        · refine h _ ((List.reverse_perm _).trans ((Merging.start_perm ..).trans ?_))
          exact (List.reverse_perm _).append (List.reverse_perm _)

end EntityRules.Order
