import EntityQuery.Proofs.StableSort.Form
import EntityQuery.Proofs.StableSort.Stable
/-! Sorting few items. Halves that are merged from both ends are merged as from one when the order
ranks the items: counting what is from the first half shows that the ends do not overlap. -/
namespace EntityQuery.StableSort
variable {α β : Type} {precedes : α → α → Bool} {xs ys xs' ys' zs : List α}

/-- `ys` are the items of `xs`, in their stable order if the order ranks them. -/
structure SortOf (precedes : α → α → Bool) (xs ys : List α) : Prop where
  perm : ys.Perm xs
  stable : Ranked precedes → Stable precedes xs ys

/-- A result has the property `p`; there is one if the order ranks the items. -/
def Yields (precedes : α → α → Bool) (p : β → Prop) : Option β → Prop
  | some y => p y
  | none => ¬ Ranked precedes

abbrev Sorts (precedes : α → α → Bool) (xs : List α) : Option (List α) → Prop :=
  Yields precedes (SortOf precedes xs)

theorem Yields.bind {γ : Type} {p : β → Prop} {q : γ → Prop} {o : Option β} {f : β → Option γ}
    (h : Yields precedes p o) (hf : ∀ y, p y → Yields precedes q (f y)) :
    Yields precedes q (o >>= f) := by
  cases o with
  | none => exact h
  | some y => exact hf y h

namespace SortOf

theorem of_sorted (h : Ranked precedes → xs.Pairwise fun a b => precedes b a = false) :
    SortOf precedes xs xs :=
  ⟨.refl _, fun hr => .of_sorted (h hr)⟩

theorem sorted (h : SortOf precedes xs ys) (hr : Ranked precedes) :
    ys.Pairwise fun a b => precedes b a = false :=
  (h.stable hr).sorted

theorem append (hx : SortOf precedes xs xs') (hy : SortOf precedes ys ys')
    (h : SortOf precedes (xs' ++ ys') zs) : SortOf precedes (xs ++ ys) zs := by
  refine ⟨h.perm.trans (hx.perm.append hy.perm), fun hr => ⟨h.sorted hr, fun a => ?_⟩⟩
  rw [(h.stable hr).ties, List.filter_append, List.filter_append, (hx.stable hr).ties,
    (hy.stable hr).ties]

theorem length_eq (h : SortOf precedes xs ys) : ys.length = xs.length := h.perm.length_eq

end SortOf

section
variable (precedes)

theorem insertBack_perm (x : α) (xs : List α) : (insertBack precedes x xs).Perm (x :: xs) := by
  induction xs with
  | nil => exact .refl _
  | cons y rest ih =>
    rw [insertBack]
    split
    · exact (ih.cons y).trans (.swap x y rest)
    · exact .refl _

end

theorem filter_insertBack (h : Ranked precedes) (x a : α) (ys : List α) :
    (insertBack precedes x ys).filter (tied precedes a) = (x :: ys).filter (tied precedes a) := by
  induction ys with
  | nil => rfl
  | cons y rest ih =>
    rw [insertBack]
    split
    · rename_i hxy
      rw [List.filter_cons, ih, List.filter_cons, List.filter_cons (x := x), List.filter_cons]
      split
      · rename_i hy
        have hx : ¬ tied precedes a x = true := fun hx => by simpa [hxy] using h.of_tied hy hx
        rw [if_neg hx, if_neg hx]
      · rfl
    · rfl

theorem insertBack_sorted (h : Ranked precedes) (x : α)
    (hys : ys.Pairwise fun a b => precedes a b = false) :
    (insertBack precedes x ys).Pairwise fun a b => precedes a b = false := by
  induction ys with
  | nil => exact List.pairwise_singleton _ _
  | cons y rest ih =>
    obtain ⟨hy, hrest⟩ := List.pairwise_cons.1 hys
    rw [insertBack]
    split
    · rename_i hxy
      refine List.pairwise_cons.2 ⟨fun z hz => ?_, ih hrest⟩
      obtain rfl | hz := List.mem_cons.1 ((insertBack_perm precedes x rest).mem_iff.1 hz)
      · exact h.asymm hxy
      · exact hy z hz
    · rename_i hxy
      rw [Bool.not_eq_true] at hxy
      refine List.pairwise_cons.2 ⟨fun z hz => ?_, hys⟩
      obtain rfl | hz := List.mem_cons.1 hz
      · exact hxy
      · exact h.trans (hy z hz) hxy

theorem sortOf_insertAll (hx : SortOf precedes xs xs') (ys : List α) :
    SortOf precedes (xs ++ ys) (insertAll precedes xs' ys) := by
  -- What has been sorted so far is kept in reverse.
  have hfold : ∀ (ys xs xs' : List α), SortOf precedes xs xs'.reverse →
      SortOf precedes (xs ++ ys)
        (ys.foldl (fun reversed x => insertBack precedes x reversed) xs').reverse := by
    intro ys
    induction ys with
    | nil => exact fun xs xs' h => by simpa using h
    | cons y rest ih =>
      intro xs xs' h
      rw [List.foldl_cons, ← List.singleton_append, ← List.append_assoc]
      refine ih _ _ ⟨?_, fun hr => ⟨?_, fun a => ?_⟩⟩
      · have hperm := (insertBack_perm precedes y xs').trans (List.perm_append_singleton y xs').symm
        exact (List.reverse_perm _).trans
          (hperm.trans (((List.reverse_perm _).symm.trans h.perm).append_right _))
      · exact List.pairwise_reverse.2 (insertBack_sorted hr y (List.pairwise_reverse.1 (h.sorted hr)))
      · rw [List.filter_reverse, filter_insertBack hr, ← List.filter_reverse, List.reverse_cons,
          List.filter_append, (h.stable hr).ties, List.filter_append]
  exact hfold ys xs xs'.reverse (by rwa [List.reverse_reverse])

theorem sortOf_insertionSort (xs : List α) : SortOf precedes xs (insertAll precedes [] xs) :=
  sortOf_insertAll (.of_sorted fun _ => .nil) xs

theorem SortOf.merge (hx : SortOf precedes xs xs') (hy : SortOf precedes ys ys') :
    SortOf precedes (xs ++ ys) (xs'.merge ys' fun x y => !precedes y x) :=
  hx.append hy ⟨List.merge_perm_append _, fun hr => .merge hr (hx.sorted hr) (hy.sorted hr)⟩

theorem mergePairs_perm (a b c d : α) : (mergePairs precedes a b c d).Perm ([a, b] ++ [c, d]) := by
  classical
  refine List.perm_iff_count.2 fun x => ?_
  unfold mergePairs
  cases precedes c a <;> cases precedes d b <;>
    simp only [Bool.false_eq_true, if_true, if_false] <;> split <;>
    simp only [List.count_append, List.count_cons, List.count_nil] <;> omega

theorem mergePairs_eq_merge (h : Ranked precedes) {a b c d : α} (hab : precedes b a = false)
    (hcd : precedes d c = false) :
    mergePairs precedes a b c d = [a, b].merge [c, d] fun x y => !precedes y x := by
  unfold mergePairs
  cases hca : precedes c a <;> cases hdb : precedes d b
  · cases hcb : precedes c b <;> simp [hca, hdb, hcb]
  · have hcb : precedes c b = true := h.precedes_of_right hcd hdb
    simp [hca, hdb, hcb, hcd]
  · have hda : precedes d a = false := h.trans hab hdb
    simp [hca, hdb, hda, hab]
  · cases hda : precedes d a <;> simp [hca, hdb, hda]

theorem sortOf_mergePairs {a b c d : α} (hx : SortOf precedes xs [a, b])
    (hy : SortOf precedes ys [c, d]) : SortOf precedes (xs ++ ys) (mergePairs precedes a b c d) := by
  refine hx.append hy ⟨mergePairs_perm a b c d, fun hr => ?_⟩
  have hab := hx.sorted hr
  have hcd := hy.sorted hr
  rw [mergePairs_eq_merge hr (by simpa using hab) (by simpa using hcd)]
  exact .merge hr hab hcd

theorem sortOf_sortFour (a b c d : α) : SortOf precedes [a, b, c, d] (sortFour precedes a b c d) := by
  have hpair (a b : α) :
      let p := if precedes b a then (b, a) else (a, b)
      SortOf precedes [a, b] [p.1, p.2] := by
    cases hba : precedes b a with
    | false => exact .of_sorted fun _ => by simpa using hba
    | true =>
      refine ⟨.swap a b [], fun hr => ⟨by simpa using hr.asymm hba, fun c => ?_⟩⟩
      cases hb : tied precedes c b with
      | false => simp [List.filter_cons, hb]
      | true =>
        have ha : tied precedes c a = false := by
          by_contra ha
          rw [hr.of_tied (by simpa using ha) hb] at hba
          cases hba
        simp [ha, hb]
  exact sortOf_mergePairs (hpair a b) (hpair c d)

theorem sortOf_sortHalf (fours : Bool) (xs : List α) :
    SortOf precedes xs (sortHalf precedes fours xs) := by
  unfold sortHalf
  split
  · split
    · exact sortOf_insertAll (sortOf_sortFour ..) _
    · exact sortOf_insertionSort _
  · exact sortOf_insertionSort _

section
variable (precedes) (n : Nat) (xs ys : List α)

theorem exists_taken : ∃ us vs, us ++ (mergeSteps precedes n xs ys).left = xs ∧
    vs ++ (mergeSteps precedes n xs ys).right = ys ∧
    (mergeSteps precedes n xs ys).merged.Perm (us ++ vs) := by
  fun_induction mergeSteps precedes n xs ys with
  | case1 n x xs y ys hyx m ih =>
    obtain ⟨us, vs, hx, hy, hperm⟩ := ih
    exact ⟨us, y :: vs, hx, congrArg (y :: ·) hy, (hperm.cons y).trans List.perm_middle.symm⟩
  | case2 n x xs y ys hyx m ih =>
    obtain ⟨us, vs, hx, hy, hperm⟩ := ih
    exact ⟨x :: us, vs, congrArg (x :: ·) hx, hy, hperm.cons x⟩
  | case3 => exact ⟨[], [], rfl, rfl, .refl _⟩

theorem mergeSteps_append_merge : (mergeSteps precedes n xs ys).merged ++
    (mergeSteps precedes n xs ys).left.merge (mergeSteps precedes n xs ys).right
      (fun x y => !precedes y x) = xs.merge ys fun x y => !precedes y x := by
  fun_induction mergeSteps precedes n xs ys with
  | case1 n x xs y ys hyx m ih => simp [← ih, m, hyx]
  | case2 n x xs y ys hyx m ih => simp [← ih, m, hyx]
  | case3 => rfl

theorem length_mergeSteps (hx : n ≤ xs.length) (hy : n ≤ ys.length) :
    (mergeSteps precedes n xs ys).merged.length = n := by
  fun_induction mergeSteps precedes n xs ys with
  | case1 n x xs y ys hyx m ih =>
    exact congrArg (· + 1) (ih (Nat.le_of_succ_le hx) (Nat.le_of_succ_le_succ hy))
  | case2 n x xs y ys hyx m ih =>
    exact congrArg (· + 1) (ih (Nat.le_of_succ_le_succ hx) (Nat.le_of_succ_le hy))
  | case3 n xs ys hend =>
    cases n with
    | zero => rfl
    | succ n =>
      obtain ⟨x, xs, rfl⟩ := List.exists_cons_of_length_pos (Nat.zero_lt_of_lt hx)
      obtain ⟨y, ys, rfl⟩ := List.exists_cons_of_length_pos (Nat.zero_lt_of_lt hy)
      exact (hend n x xs y ys rfl rfl rfl).elim

end

theorem append_between {us ws behind before middle : List α}
    (h : between xs behind before = some middle) (hbehind : us ++ behind = xs)
    (hbefore : ws ++ before = xs.reverse) : us ++ middle ++ ws.reverse = xs := by
  have hbefore' : before.reverse ++ ws.reverse = xs := by
    rw [← List.reverse_append, hbefore, List.reverse_reverse]
  unfold between at h
  split at h
  · rename_i hle
    cases h
    have hlength : xs.length = us.length + behind.length := by
      rw [← hbehind, List.length_append]
    have hmiddle : before.length - us.length = behind.length + before.length - xs.length := by omega
    calc us ++ behind.take (behind.length + before.length - xs.length) ++ ws.reverse
      _ = (us ++ behind).take before.length ++ ws.reverse := by
        rw [List.take_append, List.take_of_length_le (l := us) (by omega), hmiddle]
      _ = before.reverse ++ ws.reverse := by
        rw [hbehind, ← hbefore', List.take_left' (List.length_reverse ..)]
      _ = xs := hbefore'
  · cases h

section
variable (precedes)

theorem mergeHalves_perm {left right zs : List α} (h : mergeHalves precedes left right = some zs) :
    zs.Perm (left ++ right) := by
  classical
  let n := (left.length + right.length) / 2
  obtain ⟨us, vs, hus, hvs, hfront⟩ := exists_taken precedes n left right
  obtain ⟨ws, ts, hws, hts, hback⟩ :=
    exists_taken (fun x y => precedes y x) n right.reverse left.reverse
  unfold mergeHalves at h
  obtain ⟨middle, hmiddle, h⟩ := Option.bind_eq_some_iff.1 h
  obtain ⟨middle', hmiddle', h⟩ := Option.bind_eq_some_iff.1 h
  cases h
  refine List.perm_iff_count.2 fun x => ?_
  have hleft := congrArg (List.count x) (append_between hmiddle hus hts)
  have hright := congrArg (List.count x) (append_between hmiddle' hvs hws)
  simp only [List.count_append, List.count_reverse] at hleft hright
  simp only [List.count_append, List.count_reverse, n, hfront.count_eq, hback.count_eq]
  omega

end

section
variable {left right : List α} (h : Ranked precedes)
  (hleft : left.Pairwise fun a b => precedes b a = false)
  (hright : right.Pairwise fun a b => precedes b a = false)
include h hleft hright

/-- Merging from the end gives the same list as merging from the front. -/
theorem reverse_merge : (right.reverse.merge left.reverse fun y x => !precedes y x).reverse =
    left.merge right fun x y => !precedes y x := by
  have hflip := Stable.merge h.flip (List.pairwise_reverse.2 hright) (List.pairwise_reverse.2 hleft)
  rw [← List.reverse_append] at hflip
  have hback := hflip.reverse
  rw [List.reverse_reverse] at hback
  exact hback.eq h (.merge h hleft hright)

section
variable {n : Nat} (hn : n ≤ left.length) (hn' : n ≤ right.length)
include hn hn'

/-- The merged list is what is merged from each end, and what is left between. -/
theorem exists_middle : ∃ middle, (mergeSteps precedes n left right).merged ++ middle ++
      (mergeSteps (fun x y => precedes y x) n right.reverse left.reverse).merged.reverse =
        (left.merge right fun x y => !precedes y x) ∧
    n + middle.length + n = left.length + right.length := by
  have hfront := mergeSteps_append_merge precedes n left right
  have hback := congrArg List.reverse
    (mergeSteps_append_merge (fun x y => precedes y x) n right.reverse left.reverse)
  rw [reverse_merge h hleft hright, List.reverse_append] at hback
  have hlength := length_mergeSteps precedes n left right hn hn'
  have hlength' := length_mergeSteps (fun x y => precedes y x) n right.reverse left.reverse
    (by rwa [List.length_reverse]) (by rwa [List.length_reverse])
  rw [← List.length_reverse] at hlength'
  have hall := congrArg List.length hback
  rw [List.length_append, hlength', List.length_merge] at hall
  obtain ⟨middle, hmiddle⟩ := List.prefix_of_prefix_length_le ⟨_, hfront⟩ ⟨_, hback⟩ (by omega)
  refine ⟨middle, by rw [hmiddle]; exact hback, ?_⟩
  rw [← hmiddle, List.length_append, hlength] at hall
  exact hall

theorem countP_merged_le (mark : α → Bool) :
    (mergeSteps precedes n left right).merged.countP mark +
        (mergeSteps (fun x y => precedes y x) n right.reverse left.reverse).merged.countP mark ≤
      left.countP mark + right.countP mark := by
  obtain ⟨middle, hall, -⟩ := exists_middle h hleft hright hn hn'
  have hcount := congrArg (List.countP mark) hall
  rw [(List.merge_perm_append _).countP_eq] at hcount
  simp only [List.countP_append, List.countP_reverse] at hcount
  omega

/-- Where a mark tells the items of the two lists apart, no item is merged from both ends. -/
theorem marked_apart {mark : α → Bool} (hmark : ∀ x ∈ left, mark x = true)
    (hmark' : ∀ y ∈ right, mark y = false) :
    left.length ≤ (mergeSteps precedes n left right).left.length +
        (mergeSteps (fun x y => precedes y x) n right.reverse left.reverse).right.length ∧
      right.length ≤ (mergeSteps precedes n left right).right.length +
        (mergeSteps (fun x y => precedes y x) n right.reverse left.reverse).left.length := by
  obtain ⟨us, vs, hus, hvs, hfront⟩ := exists_taken precedes n left right
  obtain ⟨ws, ts, hws, hts, hback⟩ :=
    exists_taken (fun x y => precedes y x) n right.reverse left.reverse
  have hfirst (zs : List α) (hz : ∀ z ∈ zs, z ∈ left) :
      zs.countP mark = zs.length ∧ zs.countP (!mark ·) = 0 :=
    ⟨List.countP_eq_length.2 fun z hzs => hmark z (hz z hzs),
      List.countP_eq_zero.2 fun z hzs => by simp [hmark z (hz z hzs)]⟩
  have hsecond (zs : List α) (hz : ∀ z ∈ zs, z ∈ right) :
      zs.countP mark = 0 ∧ zs.countP (!mark ·) = zs.length :=
    ⟨List.countP_eq_zero.2 fun z hzs => by simp [hmark' z (hz z hzs)],
      List.countP_eq_length.2 fun z hzs => by simp [hmark' z (hz z hzs)]⟩
  have hu := hfirst us fun z hz => hus ▸ List.mem_append_left _ hz
  have ht := hfirst ts fun z hz => List.mem_reverse.1 (hts ▸ List.mem_append_left _ hz)
  have hv := hsecond vs fun z hz => hvs ▸ List.mem_append_left _ hz
  have hw := hsecond ws fun z hz => List.mem_reverse.1 (hws ▸ List.mem_append_left _ hz)
  have hle := countP_merged_le h hleft hright hn hn' mark
  have hle' := countP_merged_le h hleft hright hn hn' (!mark ·)
  rw [hfront.countP_eq, hback.countP_eq, List.countP_append, List.countP_append,
    (hfirst left fun _ => id).1, (hsecond right fun _ => id).1] at hle
  rw [hfront.countP_eq, hback.countP_eq, List.countP_append, List.countP_append,
    (hfirst left fun _ => id).2, (hsecond right fun _ => id).2] at hle'
  have hlengths := And.intro (congrArg List.length hus) (congrArg List.length hvs)
  have hlengths' := And.intro (congrArg List.length hws) (congrArg List.length hts)
  simp only [List.length_append, List.length_reverse] at hlengths hlengths'
  omega

end

section
variable (hle : left.length ≤ right.length) (hle' : right.length ≤ left.length + 1)
include hle hle'

theorem exists_mergeHalves_of_marked (mark : α → Bool) (hmark : ∀ x ∈ left, mark x = true)
    (hmark' : ∀ y ∈ right, mark y = false) : ∃ zs, mergeHalves precedes left right = some zs := by
  obtain ⟨hfirst, hsecond⟩ := marked_apart h hleft hright
    (n := (left.length + right.length) / 2) (by omega) (by omega) hmark hmark'
  simp only [mergeHalves, between, if_pos hfirst, if_pos hsecond]
  exact ⟨_, rfl⟩

theorem exists_mergeHalves : ∃ zs, mergeHalves precedes left right = some zs := by
  -- The items are marked with the list that they are in.
  have hmap := mergeHalves_map Prod.fst precedes (left.map (·, true)) (right.map (·, false))
  have hmarked : ∃ zs, mergeHalves (through Prod.fst precedes) (left.map (·, true))
      (right.map (·, false)) = some zs :=
    exists_mergeHalves_of_marked ⟨h.asymm, h.trans⟩ (List.pairwise_map.2 hleft)
      (List.pairwise_map.2 hright) (by simpa using hle) (by simpa using hle') Prod.snd (by simp)
      (by simp)
  obtain ⟨zs, hzs⟩ := hmarked
  rw [hzs, List.map_map, List.map_map] at hmap
  exact ⟨_, (congrArg₂ _ (List.map_id left).symm (List.map_id right).symm).trans hmap⟩

theorem mergeHalves_eq_merge :
    mergeHalves precedes left right = some (left.merge right fun x y => !precedes y x) := by
  obtain ⟨zs, hzs⟩ := exists_mergeHalves h hleft hright hle hle'
  obtain ⟨middle, hmiddle, hlength⟩ := exists_middle h hleft hright
    (n := (left.length + right.length) / 2) (by omega) (by omega)
  have hperm : zs.Perm (left.merge right fun x y => !precedes y x) :=
    (mergeHalves_perm precedes hzs).trans (List.merge_perm_append _).symm
  rw [hzs]
  unfold mergeHalves at hzs
  obtain ⟨us, -, hzs⟩ := Option.bind_eq_some_iff.1 hzs
  obtain ⟨vs, -, hzs⟩ := Option.bind_eq_some_iff.1 hzs
  cases hzs
  rw [← hmiddle] at hperm ⊢
  rw [List.perm_append_right_iff, List.append_assoc, List.perm_append_left_iff] at hperm
  have hsame : us ++ vs = middle := by
    match middle, hperm, (by omega : middle.length ≤ 1) with
    | [], hperm, _ => exact List.perm_nil.1 hperm
    | [x], hperm, _ => exact List.perm_singleton.1 hperm
  rw [← hsame, ← List.append_assoc]

end

end

theorem sorts_smallSort (xs : List α) : Sorts precedes xs (smallSort precedes xs) := by
  unfold smallSort
  split
  · rename_i hlt
    refine .of_sorted fun _ => ?_
    match xs, hlt with
    | [], _ => exact .nil
    | [x], _ => exact List.pairwise_singleton _ _
  · have hleft : SortOf precedes _ _ := sortOf_sortHalf (8 ≤ xs.length) (xs.take (xs.length / 2))
    have hright : SortOf precedes _ _ := sortOf_sortHalf (8 ≤ xs.length) (xs.drop (xs.length / 2))
    have hlength := hleft.length_eq
    have hlength' := hright.length_eq
    rw [List.length_take] at hlength
    rw [List.length_drop] at hlength'
    have hmerge (hr : Ranked precedes) :=
      mergeHalves_eq_merge hr (hleft.sorted hr) (hright.sorted hr) (by omega) (by omega)
    have hsort := hleft.merge hright
    rw [List.take_append_drop] at hsort
    simp only
    cases hzs : mergeHalves precedes _ _ with
    | none => exact fun hr => by simp [hmerge hr] at hzs
    | some zs =>
      refine ⟨(mergeHalves_perm precedes hzs).trans ?_, fun hr => ?_⟩
      · exact ((hleft.perm.append hright.perm)).trans (.of_eq (List.take_append_drop ..))
      · rw [hmerge hr] at hzs
        cases hzs
        exact hsort.stable hr

end EntityQuery.StableSort
