import Mathlib
import EntityQuery.StableSort
/-! Sorting looks at items only through the order: items in another form are sorted alike, and lists
of items that an order compares alike are. -/
namespace EntityQuery.StableSort
variable {α β : Type} (f : α → β) (s : β → β → Bool)

abbrev through (x y : α) : Bool := s (f x) (f y)

def Merging.map (m : Merging α) : Merging β := ⟨m.merged.map f, m.left.map f, m.right.map f⟩

def Run.map (r : Run α) : Run β := ⟨r.items.map f, r.sorted⟩

theorem length_items_map (r : Run α) : (r.map f).items.length = r.items.length := List.length_map _

theorem insertBack_map (x : α) (ys : List α) :
    insertBack s (f x) (ys.map f) = (insertBack (through f s) x ys).map f := by
  induction ys with
  | nil => rfl
  | cons y rest ih =>
    rw [List.map_cons, insertBack, insertBack, ih]
    split <;> rfl

theorem insertAll_map (sorted xs : List α) :
    insertAll s (sorted.map f) (xs.map f) = (insertAll (through f s) sorted xs).map f := by
  have hfold : ∀ (xs reversed : List α),
      (xs.map f).foldl (fun reversed x => insertBack s x reversed) (reversed.map f) =
        (xs.foldl (fun reversed x => insertBack (through f s) x reversed) reversed).map f := by
    intro xs
    induction xs with
    | nil => exact fun reversed => rfl
    | cons x rest ih =>
      intro reversed
      rw [List.map_cons, List.foldl_cons, insertBack_map, ih]
      rfl
  rw [insertAll, insertAll, ← List.map_reverse, hfold, List.map_reverse]

theorem sortFour_map (a b c d : α) :
    sortFour s (f a) (f b) (f c) (f d) = (sortFour (through f s) a b c d).map f := by
  have hpairs (a b c d : α) :
      mergePairs s (f a) (f b) (f c) (f d) = (mergePairs (through f s) a b c d).map f := by
    unfold mergePairs through
    cases s (f c) (f a) <;> cases s (f d) (f b) <;> simp only [Bool.false_eq_true, if_true, if_false]
      <;> split <;> rfl
  unfold sortFour
  cases hba : s (f b) (f a) <;> cases hdc : s (f d) (f c) <;> simp [through, hba, hdc, hpairs]

theorem sortHalf_map (fours : Bool) (xs : List α) :
    sortHalf s fours (xs.map f) = (sortHalf (through f s) fours xs).map f := by
  match xs with
  | [] => rfl
  | [a] => exact insertAll_map f s [] [a]
  | [a, b] => exact insertAll_map f s [] [a, b]
  | [a, b, c] => exact insertAll_map f s [] [a, b, c]
  | a :: b :: c :: d :: rest =>
    cases fours with
    | false => exact insertAll_map f s [] (a :: b :: c :: d :: rest)
    | true =>
      have hfour := insertAll_map f s (sortFour (through f s) a b c d) rest
      rwa [← sortFour_map] at hfour

theorem mergeSteps_map (n : Nat) (xs ys : List α) :
    mergeSteps s n (xs.map f) (ys.map f) = (mergeSteps (through f s) n xs ys).map f := by
  fun_induction mergeSteps (through f s) n xs ys with
  | case1 n x xs y ys hyx m ih =>
    rw [List.map_cons, List.map_cons, mergeSteps, if_pos hyx, ← List.map_cons, ih]
    rfl
  | case2 n x xs y ys hyx m ih =>
    rw [List.map_cons, List.map_cons, mergeSteps, if_neg hyx, ← List.map_cons, ih]
    rfl
  | case3 n xs ys hend =>
    match n, xs, ys, hend with
    | 0, _, _, _ => rfl
    | n + 1, [], _, _ => rfl
    | n + 1, _ :: _, [], _ => rfl
    | n + 1, x :: xs, y :: ys, hend => exact (hend n x xs y ys rfl rfl rfl).elim

theorem between_map (xs behind before : List α) :
    between (xs.map f) (behind.map f) (before.map f) = (between xs behind before).map (List.map f) := by
  unfold between
  simp only [List.length_map]
  split
  · rw [Option.map_some, List.map_take]
  · rfl

theorem mergeHalves_map (left right : List α) : mergeHalves s (left.map f) (right.map f) =
    (mergeHalves (through f s) left right).map (List.map f) := by
  have hback := mergeSteps_map f fun x y => s y x
  unfold mergeHalves
  simp only [List.length_map, ← List.map_reverse, mergeSteps_map, hback, Merging.map, between_map]
  generalize between left _ _ = middle
  generalize between right _ _ = middle'
  cases middle <;> cases middle' <;> simp

theorem smallSort_map (xs : List α) :
    smallSort s (xs.map f) = (smallSort (through f s) xs).map (List.map f) := by
  unfold smallSort
  simp only [List.length_map, ← List.map_take, ← List.map_drop, sortHalf_map, mergeHalves_map]
  split <;> rfl

theorem chain_map (t : β → β → Bool) (x : α) (ys : List α) :
    chain t (f x) (ys.map f) = chain (through f t) x ys := by
  induction ys generalizing x with
  | nil => rfl
  | cons y rest ih => rw [List.map_cons, chain, chain, ih]

theorem nextRun_map (eager : Bool) (good : Nat) (x : α) (rest : List α) :
    nextRun s eager good (f x) (rest.map f) =
      (nextRun (through f s) eager good x rest).map (Prod.map (Run.map f) id) := by
  have hdescending : (rest.map f).head?.any (s · (f x)) = rest.head?.any (through f s · x) := by
    cases rest <;> rfl
  unfold nextRun
  rw [hdescending]
  generalize rest.head?.any (through f s · x) = descending
  simp only [chain_map f fun x y => s y x == descending, ← List.map_take, ← List.map_cons,
    smallSort_map]
  split
  · cases descending <;> simp [Run.map]
  · split
    · cases smallSort (through f s) (x :: rest.take (smallMax - 1)) <;> rfl
    · rfl

theorem runs_map (eager : Bool) (good : Nat) (xs : List α) : runs s eager good (xs.map f) =
    (runs (through f s) eager good xs).map (List.map (Run.map f)) := by
  fun_induction runs (through f s) eager good xs with
  | case1 => rw [List.map_nil, runs]; rfl
  | case2 x rest ih =>
    rw [List.map_cons, runs, nextRun_map]
    cases nextRun (through f s) eager good x rest with
    | none => rfl
    | some p =>
      obtain ⟨run, k⟩ := p
      have hrest := ih k
      rw [List.map_drop] at hrest
      simp only [Option.map_some, Prod.map, Option.bind_eq_bind, Option.bind_some, id, hrest]
      cases runs (through f s) eager good (rest.drop k) <;> rfl

theorem merge_map (xs ys : List α) :
    merge s (xs.map f) (ys.map f) = (merge (through f s) xs ys).map f := by
  have hmerge (t : β → β → Bool) (xs ys : List α) :
      (xs.map f).merge (ys.map f) t = (xs.merge ys (through f t)).map f :=
    (List.map_merge (f := f) fun _ _ _ _ => rfl).symm
  unfold merge
  simp only [List.length_map, ← List.map_reverse, hmerge]
  split <;> rfl

section
variable {quick : List β → Option (List β)} {quick' : List α → Option (List α)}
  (hquick : ∀ xs, quick (xs.map f) = (quick' xs).map (List.map f))
include hquick

theorem toSorted_map (r : Run α) :
    (r.map f).toSorted quick = (r.toSorted quick').map (List.map f) := by
  unfold Run.toSorted Run.map
  rw [hquick]
  split <;> rfl

theorem join_map (room : Nat) (left right : Run α) :
    Run.join s quick room (left.map f) (right.map f) =
      (Run.join (through f s) quick' room left right).map (Run.map f) := by
  have hsorted (r : Run α) : (r.map f).sorted = r.sorted := rfl
  unfold Run.join
  simp only [length_items_map, hsorted, toSorted_map f hquick]
  split
  · simp [Run.map]
  · cases left.toSorted quick' <;> cases right.toSorted quick' <;> simp [merge_map, Run.map]

end

section
variable {join : Run β → Run β → Option (Run β)} {join' : Run α → Run α → Option (Run α)}
  (hjoin : ∀ left right, join (left.map f) (right.map f) = (join' left right).map (Run.map f))
include hjoin

theorem collapse_map (depth : Nat) (stack : List (Run α × Nat)) (run : Run α) :
    collapse join depth (stack.map (Prod.map (Run.map f) id)) (run.map f) =
      (collapse join' depth stack run).map
        (Prod.map (List.map (Prod.map (Run.map f) id)) (Run.map f)) := by
  induction stack generalizing run with
  | nil => rfl
  | cons top below ih =>
    obtain ⟨left, d⟩ := top
    rw [List.map_cons, collapse]
    show (if depth ≤ d then join (left.map f) (run.map f) >>= _ else _) = _
    rw [collapse, hjoin]
    split
    · cases join' left run with
      | none => rfl
      | some joined => exact ih joined
    · rfl

theorem joinAll_map (n scanned : Nat) (stack : List (Run α × Nat)) (run : Run α)
    (more : List (Run α)) :
    joinAll join n scanned (stack.map (Prod.map (Run.map f) id)) (run.map f)
      (more.map (Run.map f)) = (joinAll join' n scanned stack run more).map (Run.map f) := by
  induction more generalizing scanned stack run with
  | nil =>
    rw [List.map_nil, joinAll, joinAll, collapse_map f hjoin]
    cases collapse join' 0 stack run <;> rfl
  | cons next more ih =>
    rw [List.map_cons, joinAll, joinAll]
    simp only [length_items_map, collapse_map f hjoin]
    generalize joinDepth n _ _ _ = depth
    cases collapse join' depth stack run with
    | none => rfl
    | some p => exact ih _ ((p.2, depth) :: p.1) next

end

theorem runSort_map {quick : List β → Option (List β)} {quick' : List α → Option (List α)}
    (hquick : ∀ xs, quick (xs.map f) = (quick' xs).map (List.map f)) (eager : Bool) (room : Nat)
    (xs : List α) : runSort s quick eager room (xs.map f) =
      (runSort (through f s) quick' eager room xs).map (List.map f) := by
  unfold runSort
  rw [List.length_map, runs_map]
  match runs (through f s) eager (goodLength xs.length) xs with
  | none => rfl
  | some [] => rfl
  | some (run :: more) =>
    have hall := joinAll_map f (join_map f s hquick room) xs.length run.items.length [] run more
    simp only [Option.map_some, List.map_cons, Option.bind_eq_bind, Option.bind_some,
      length_items_map]
    rw [List.map_nil] at hall
    rw [hall]
    cases joinAll (Run.join (through f s) quick' room) xs.length run.items.length [] run more with
    | none => rfl
    | some all => exact toSorted_map f hquick all

theorem pivot_map (xs : List α) : pivot s (xs.map f) = pivot (through f s) xs := by
  have hat : precedesAt s (xs.map f) = precedesAt (through f s) xs := by
    funext i j
    unfold precedesAt
    rw [List.getElem?_map, List.getElem?_map]
    cases xs[i]? <;> cases xs[j]? <;> rfl
  rw [pivot, pivot, List.length_map, hat]

theorem filter_map_through (g : β → Bool) (xs : List α) :
    (xs.map f).filter g = (xs.filter fun x => g (f x)).map f := List.filter_map

theorem keepWith_map (p : α) (keep : β → Bool) (before after : List α) :
    keepWith (f p) keep (before.map f) (after.map f) =
      (keepWith p (fun x => keep (f x)) before after).map f := by
  simp [keepWith, filter_map_through]

theorem quickSort_map (limit : Nat) (ancestor : Option α) (xs : List α) :
    quickSort s limit (ancestor.map f) (xs.map f) =
      (quickSort (through f s) limit ancestor xs).map (List.map f) := by
  induction limit generalizing ancestor xs with
  | zero =>
    simp only [quickSort, List.length_map, smallSort_map, runSort_map f s (smallSort_map f s)]
    split <;> rfl
  | succ limit ih =>
    unfold quickSort
    rw [List.length_map, smallSort_map, pivot_map, runSort_map f s (smallSort_map f s),
      ← List.map_take, ← List.map_drop]
    split
    · rfl
    · match xs.take (pivot (through f s) xs), xs.drop (pivot (through f s) xs) with
      | before, [] => rfl
      | before, p :: after =>
        have hnone (ys : List α) : quickSort s limit none (ys.map f) = _ := ih none ys
        have hsome (ys : List α) : quickSort s limit (some (f p)) (ys.map f) = _ := ih (some p) ys
        simp only [List.map_cons, ← List.map_append, filter_map_through, keepWith_map,
          List.isEmpty_map, Option.any_map, hnone, hsome, ih]
        split <;> simp only [Option.bind_eq_bind, Option.bind_map, Option.map_bind, Option.pure_def,
          Function.comp_def, Option.map_some, List.map_append]

/-- Items in another form are sorted alike. -/
theorem sort_map (xs : List α) : sort s (xs.map f) = (sort (through f s) xs).map (List.map f) := by
  unfold sort
  rw [List.length_map]
  split
  · exact congrArg some (insertAll_map f s [] xs)
  · refine runSort_map f s (fun ys => ?_) _ _ xs
    rw [List.length_map]
    exact quickSort_map f s _ none ys

end EntityQuery.StableSort
