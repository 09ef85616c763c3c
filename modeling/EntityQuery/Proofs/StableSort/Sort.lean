import EntityQuery.Proofs.StableSort.Small
/-! Sorting by runs and by partition. Every result has the items of the list, and there is a result,
which is the stable order, wherever the order ranks the items. -/
namespace EntityQuery.StableSort
variable {α β : Type} {precedes : α → α → Bool} {xs ys xs' ys' zs : List α}

theorem isChain_chain (follows : α → α → Bool) (x : α) (ys : List α) :
    (x :: ys.take (chain follows x ys)).IsChain fun a b => follows a b = true := by
  induction ys generalizing x with
  | nil => exact .singleton x
  | cons y rest ih =>
    rw [chain]
    split
    · rename_i hxy
      exact .cons_cons hxy (ih y)
    · exact .singleton x

theorem sortOf_ascending (h : xs.IsChain fun a b => precedes b a = false) :
    SortOf precedes xs xs := by
  refine .of_sorted fun hr => ?_
  have : IsTrans α fun a b => precedes b a = false := ⟨fun _ _ _ => hr.trans⟩
  exact List.isChain_iff_pairwise.1 h

/-- In strictly reverse order no two items are tied. -/
theorem sortOf_descending (h : xs.IsChain fun a b => precedes b a = true) :
    SortOf precedes xs xs.reverse := by
  refine ⟨List.reverse_perm xs, fun hr => ?_⟩
  have : IsTrans α fun a b => precedes b a = true := ⟨fun _ _ _ hba hcb => hr.strict_trans hcb hba⟩
  have hpairs := List.isChain_iff_pairwise.1 h
  refine ⟨List.pairwise_reverse.2 (hpairs.imp hr.asymm), fun a => ?_⟩
  have htied := hpairs.filter (tied precedes a)
  rw [List.filter_reverse]
  match hfound : xs.filter (tied precedes a) with
  | [] | [_] => rfl
  | x :: y :: rest =>
    have hmem (z : α) (hz : z ∈ x :: y :: rest) : tied precedes a z = true :=
      (List.mem_filter.1 (hfound ▸ hz)).2
    rw [hfound] at htied
    have hyx := List.rel_of_pairwise_cons htied (.head _)
    rw [hr.of_tied (hmem x (.head _)) (hmem y (.tail _ (.head _)))] at hyx
    cases hyx

theorem sortOf_merge (hx : SortOf precedes xs xs') (hy : SortOf precedes ys ys') :
    SortOf precedes (xs ++ ys) (merge precedes xs' ys') := by
  unfold merge
  split
  · exact hx.merge hy
  · refine ⟨?_, fun hr => ?_⟩
    · refine ((List.reverse_perm _).trans (List.merge_perm_append _)).trans ?_
      rw [← List.reverse_append]
      exact (List.reverse_perm _).trans (hx.perm.append hy.perm)
    · rw [reverse_merge hr (hx.sorted hr) (hy.sorted hr)]
      exact (hx.merge hy).stable hr

/-- A run has the items `xs`, sorted if it says so. -/
def Run.Holds (precedes : α → α → Bool) (xs : List α) (r : Run α) : Prop :=
  if r.sorted then SortOf precedes xs r.items else r.items = xs

theorem yields_nextRun (eager : Bool) (good : Nat) (x : α) (rest : List α) :
    Yields precedes (fun p => p.1.Holds precedes (x :: rest.take p.2))
      (nextRun precedes eager good x rest) := by
  unfold nextRun
  simp only
  generalize rest.head?.any (precedes · x) = descending
  have hchain := isChain_chain (fun x y => precedes y x == descending) x rest
  split
  · cases descending with
    | false => exact sortOf_ascending (by simpa using hchain)
    | true => exact sortOf_descending (by simpa using hchain)
  · split
    · exact (sorts_smallSort (x :: rest.take (smallMax - 1))).bind fun items hitems => hitems
    · exact rfl

theorem yields_runs (eager : Bool) (good : Nat) (xs : List α) :
    Yields precedes (fun rs => ∃ parts : List (List α), parts.flatten = xs ∧
      List.Forall₂ (Run.Holds precedes) parts rs) (runs precedes eager good xs) := by
  fun_induction runs precedes eager good xs with
  | case1 => exact ⟨[], rfl, .nil⟩
  | case2 x rest ih =>
    refine (yields_nextRun eager good x rest).bind fun p hp => (ih p.2).bind fun more hmore => ?_
    obtain ⟨parts, hparts, hholds⟩ := hmore
    refine ⟨(x :: rest.take p.2) :: parts, ?_, .cons hp hholds⟩
    rw [List.flatten_cons, hparts, List.cons_append, List.take_append_drop]

section
variable {quick : List α → Option (List α)} (hquick : ∀ xs, Sorts precedes xs (quick xs))
include hquick

theorem sorts_toSorted {r : Run α} (h : r.Holds precedes xs) :
    Sorts precedes xs (r.toSorted quick) := by
  unfold Run.toSorted
  unfold Run.Holds at h
  split
  · rename_i hsorted
    rwa [if_pos hsorted] at h
  · rename_i hsorted
    rw [if_neg hsorted] at h
    exact h ▸ hquick _

theorem yields_join (room : Nat) {left right : Run α} (hleft : left.Holds precedes xs)
    (hright : right.Holds precedes ys) :
    Yields precedes (Run.Holds precedes (xs ++ ys)) (Run.join precedes quick room left right) := by
  unfold Run.join
  split
  · rename_i hunsorted
    obtain ⟨-, hl, hr⟩ := hunsorted
    unfold Run.Holds at hleft hright
    rw [if_neg (by simpa using hl)] at hleft
    rw [if_neg (by simpa using hr)] at hright
    exact congrArg₂ (· ++ ·) hleft hright
  · exact (sorts_toSorted hquick hleft).bind fun us hus =>
      (sorts_toSorted hquick hright).bind fun vs hvs => sortOf_merge hus hvs

end

/-- The runs on a stack have the items `xs`, the run on top the last of them. -/
def Covers (precedes : α → α → Bool) : List (Run α × Nat) → List α → Prop
  | [], xs => xs = []
  | (r, _) :: below, xs => ∃ ys zs, ys ++ zs = xs ∧ Covers precedes below ys ∧ r.Holds precedes zs

section
variable {join : Run α → Run α → Option (Run α)}
  (hjoin : ∀ {xs ys left right}, left.Holds precedes xs → right.Holds precedes ys →
    Yields precedes (Run.Holds precedes (xs ++ ys)) (join left right))
include hjoin

theorem yields_collapse (depth d d' : Nat) {stack : List (Run α × Nat)} {run : Run α}
    (h : Covers precedes ((run, d) :: stack) xs) :
    Yields precedes (fun p => Covers precedes ((p.2, d') :: p.1) xs ∧ (depth = 0 → p.1 = []))
      (collapse join depth stack run) := by
  induction stack generalizing run d with
  | nil => exact ⟨h, fun _ => rfl⟩
  | cons top below ih =>
    obtain ⟨left, dl⟩ := top
    rw [collapse]
    split
    · obtain ⟨ys, zs, rfl, ⟨us, vs, rfl, hbelow, hleft⟩, hrun⟩ := h
      exact (hjoin hleft hrun).bind fun joined hjoined =>
        ih d ⟨us, vs ++ zs, (List.append_assoc ..).symm, hbelow, hjoined⟩
    · rename_i hdepth
      exact ⟨h, fun hzero => absurd (Nat.zero_le dl) (hzero ▸ hdepth)⟩

theorem yields_joinAll (n scanned d : Nat) {stack : List (Run α × Nat)} {run : Run α}
    {parts : List (List α)} {more : List (Run α)} (h : Covers precedes ((run, d) :: stack) xs)
    (hmore : List.Forall₂ (Run.Holds precedes) parts more) :
    Yields precedes (Run.Holds precedes (xs ++ parts.flatten))
      (joinAll join n scanned stack run more) := by
  induction hmore generalizing scanned d stack run xs with
  | nil =>
    refine (yields_collapse hjoin 0 d d h).bind fun p hp => ?_
    obtain ⟨⟨ys, zs, rfl, hys, hrun⟩, hstack⟩ := hp
    rw [hstack rfl] at hys
    cases hys
    show Run.Holds precedes _ _
    simpa using hrun
  | cons hnext hrest ih =>
    rw [joinAll]
    generalize joinDepth n _ _ _ = depth
    refine (yields_collapse hjoin depth d depth h).bind fun p hp => ?_
    rw [List.flatten_cons, ← List.append_assoc]
    exact ih _ 0 ⟨_, _, rfl, hp.1, hnext⟩

end

theorem sorts_runSort {quick : List α → Option (List α)}
    (hquick : ∀ xs, Sorts precedes xs (quick xs)) (eager : Bool) (room : Nat) (xs : List α) :
    Sorts precedes xs (runSort precedes quick eager room xs) := by
  refine (yields_runs eager (goodLength xs.length) xs).bind fun rs hrs => ?_
  obtain ⟨parts, hparts, hholds⟩ := hrs
  cases hholds with
  | nil =>
    cases hparts
    exact .of_sorted fun _ => .nil
  | @cons part run parts more hrun hmore =>
    have hcovers : Covers precedes [(run, 0)] part := ⟨[], part, rfl, rfl, hrun⟩
    have hall := yields_joinAll (yields_join hquick room) xs.length run.items.length 0 hcovers hmore
    rw [← List.flatten_cons, hparts] at hall
    exact hall.bind fun all hall => sorts_toSorted hquick hall

section
variable (p : α) (keep : α → Bool) (before after : List α)

theorem keepWith_perm : (keepWith p (!keep ·) before after ++ (before ++ after).filter keep).Perm
    (before ++ p :: after) := by
  have hothers := (List.filter_append_perm keep (before ++ after)).symm.trans List.perm_append_comm
  have hparts : (before ++ after).filter (!keep ·) = _ := List.filter_append ..
  rw [hparts] at hothers
  exact ((List.perm_middle.append_right _).trans (hothers.symm.cons p)).trans List.perm_middle.symm

variable {p keep before after}

theorem keepWith_eq_filter (hp : keep p = true) :
    keepWith p keep before after = (before ++ p :: after).filter keep := by
  rw [keepWith, List.filter_append, List.filter_cons_of_pos hp]

theorem filter_without {keep : α → Bool} (hp : keep p = false) :
    (before ++ after).filter keep = (before ++ p :: after).filter keep := by
  rw [List.filter_append, List.filter_append, List.filter_cons_of_neg (by simp [hp])]

end

section
variable {p : α} {before after : List α}

theorem sortOf_ties (hleast : Ranked precedes → ∀ x ∈ before ++ p :: after, precedes x p = false)
    (hy : SortOf precedes ((before ++ after).filter (precedes p ·)) ys) :
    SortOf precedes (before ++ p :: after) (keepWith p (!precedes p ·) before after ++ ys) := by
  refine ⟨(hy.perm.append_left _).trans (keepWith_perm ..), fun hr => ?_⟩
  rw [keepWith_eq_filter (by simp [hr.irrefl])]
  have hbehind : (before ++ after).filter (precedes p ·) = _ := filter_without (hr.irrefl p)
  rw [hbehind] at hy
  have hmem (y : α) (hy' : y ∈ ys) := hy.perm.mem_iff.1 hy'
  have hstable := hy.stable hr
  refine .parted hr (fun x y hx hy => ?_) (.of_sorted ?_) (by simpa using hstable)
    (fun y hy => hy) (by simpa using hmem)
  · exact hr.precedes_of_right (by simpa using hx) (by simpa using hy)
  · refine List.pairwise_of_forall_mem_list fun x hx y hy => ?_
    have hpx : precedes p x = false := by simpa using (List.mem_filter.1 hx).2
    exact hr.trans hpx (hleast hr y (List.mem_filter.1 hy).1)

theorem sortOf_parted (hx : SortOf precedes ((before ++ after).filter (precedes · p)) xs)
    (hy : SortOf precedes (keepWith p (!precedes · p) before after) ys) :
    SortOf precedes (before ++ p :: after) (xs ++ ys) := by
  refine ⟨(hx.perm.append hy.perm).trans (List.perm_append_comm.trans (keepWith_perm ..)),
    fun hr => ?_⟩
  have hleft : (before ++ after).filter (precedes · p) = _ := filter_without (hr.irrefl p)
  rw [hleft] at hx
  rw [keepWith_eq_filter (by simp [hr.irrefl])] at hy
  exact .parted hr (fun x y hxp hyp => hr.precedes_of_left hxp hyp) (hx.stable hr) (hy.stable hr)
    (fun x => hx.perm.mem_iff.1) fun y => hy.perm.mem_iff.1

end

theorem sorts_quickSort (limit : Nat) {ancestor : Option α}
    (hancestor : Ranked precedes → ∀ a ∈ ancestor, ∀ x ∈ xs, precedes x a = false) :
    Sorts precedes xs (quickSort precedes limit ancestor xs) := by
  induction limit generalizing ancestor xs with
  | zero =>
    unfold quickSort
    split
    · exact sorts_smallSort xs
    · exact sorts_runSort sorts_smallSort true _ xs
  | succ limit ih =>
    unfold quickSort
    split
    · exact sorts_smallSort xs
    have heager : Sorts precedes xs _ := sorts_runSort sorts_smallSort true xs.length xs
    have hparts := List.take_append_drop (pivot precedes xs) xs
    revert heager hparts
    generalize xs.take (pivot precedes xs) = before
    generalize xs.drop (pivot precedes xs) = rest
    intro heager hparts
    cases rest with
    | nil => exact heager
    | cons p after =>
      subst hparts
      simp only
      split
      · rename_i hleast
        refine (ih fun _ a ha => (Option.not_mem_none a ha).elim).bind fun ys hys =>
          sortOf_ties (fun hr x hx => ?_) hys
        rw [Bool.or_eq_true, List.isEmpty_iff, Option.any_eq_true] at hleast
        obtain hnone | ⟨a, ha, hap⟩ := hleast
        · have hleft : (before ++ after).filter (precedes · p) = _ := filter_without (hr.irrefl p)
          simpa using List.filter_eq_nil_iff.1 (hleft.symm.trans hnone) x hx
        · exact hr.trans (by simpa using hap) (hancestor hr a ha x hx)
      · refine (ih fun hr a ha x hx => ?_).bind fun ys hys =>
          (ih fun hr a ha x hx => ?_).bind fun zs hzs => sortOf_parted hzs hys
        · cases ha
          rw [keepWith_eq_filter (by simp [hr.irrefl])] at hx
          simpa using (List.mem_filter.1 hx).2
        · have hleft : (before ++ after).filter (precedes · p) = _ := filter_without (hr.irrefl p)
          exact hancestor hr a ha x (List.mem_filter.1 (hleft ▸ hx)).1

theorem sorts_sort (precedes : α → α → Bool) (xs : List α) : Sorts precedes xs (sort precedes xs) := by
  unfold sort
  split
  · exact sortOf_insertionSort xs
  · exact sorts_runSort (fun ys => sorts_quickSort _ fun _ a ha => (Option.not_mem_none a ha).elim) _
      _ xs

/-- Every result is a rearrangement, whatever the order is. -/
theorem sort_perm (h : sort precedes xs = some ys) : ys.Perm xs := by
  have hsorts := sorts_sort precedes xs
  rw [h] at hsorts
  exact hsorts.perm

theorem exists_sort (h : Ranked precedes) (xs : List α) :
    ∃ ys, sort precedes xs = some ys ∧ Stable precedes xs ys := by
  have hsorts := sorts_sort precedes xs
  cases hys : sort precedes xs with
  | none =>
    rw [hys] at hsorts
    exact (hsorts h).elim
  | some ys =>
    rw [hys] at hsorts
    exact ⟨ys, rfl, hsorts.stable h⟩

theorem sort_eq_iff_stable (h : Ranked precedes) : sort precedes xs = some ys ↔ Stable precedes xs ys := by
  obtain ⟨zs, hzs, hstable⟩ := exists_sort h xs
  rw [hzs, Option.some_inj]
  exact ⟨fun he => he ▸ hstable, fun hy => hstable.eq h hy⟩

theorem exists_sort_of_short (precedes : α → α → Bool) (h : xs.length ≤ insertionMax) :
    ∃ ys, sort precedes xs = some ys :=
  ⟨_, if_pos h⟩

theorem sort_of_none (h : ∀ x y, precedes x y = false) (xs : List α) :
    sort precedes xs = some xs :=
  (sort_eq_iff_stable ⟨fun _ => h _ _, fun _ _ => h _ _⟩).2
    (.of_sorted (List.pairwise_of_forall fun x y => h y x))

section
variable (precedes xs)

theorem sort_attach : sort precedes xs =
    (sort (fun x y => precedes x.1 y.1) xs.attach).map (List.map Subtype.val) := by
  rw [← sort_map, List.attach_map_subtype_val]

end

theorem sort_congr {precedes' : α → α → Bool}
    (h : ∀ x ∈ xs, ∀ y ∈ xs, precedes x y = precedes' x y) :
    sort precedes xs = sort precedes' xs := by
  have hattached : (fun x y : {x // x ∈ xs} => precedes x.1 y.1) = fun x y => precedes' x.1 y.1 :=
    funext fun x => funext fun y => h x x.2 y y.2
  rw [sort_attach precedes, sort_attach precedes', hattached]

abbrev RankedOn (precedes : α → α → Bool) (xs : List α) : Prop :=
  Ranked fun x y : {x // x ∈ xs} => precedes x y

namespace RankedOn
variable (h : RankedOn precedes xs)
include h

theorem exists_sort : ∃ ys, sort precedes xs = some ys := by
  obtain ⟨ys, hys, -⟩ := StableSort.exists_sort h xs.attach
  rw [sort_attach, hys]
  exact ⟨_, rfl⟩

theorem sort_product (vs : List β) : sort (fun p q => precedes p.1 q.1) (xs ×ˢ vs) =
    (sort precedes xs).map (· ×ˢ vs) := by
  have hmap (zs : List {x // x ∈ xs}) :
      (zs ×ˢ vs).map (Prod.map Subtype.val id) = zs.map Subtype.val ×ˢ vs := by
    induction zs with
    | nil => rfl
    | cons z zs ih => simp [List.product_cons, ih]
  have hranked : Ranked fun p q : {x // x ∈ xs} × β => precedes p.1 q.1 := ⟨h.asymm, h.trans⟩
  obtain ⟨ys, hys, hstable⟩ := StableSort.exists_sort h xs.attach
  have hpairs := (sort_eq_iff_stable hranked).2 (hstable.product h vs)
  have hproduct := sort_map (Prod.map Subtype.val id) (fun p q => precedes p.1 q.1) (xs.attach ×ˢ vs)
  rw [hmap, List.attach_map_subtype_val] at hproduct
  rw [hproduct, sort_attach precedes xs, hys]
  exact (congrArg _ hpairs).trans (congrArg some (hmap ys))

theorem sort_filter (f : α → Bool) :
    sort precedes (xs.filter f) = (sort precedes xs).map (List.filter f) := by
  obtain ⟨ys, hys, hstable⟩ := StableSort.exists_sort h xs.attach
  have hkept := (sort_eq_iff_stable h).2 (hstable.filter (f ∘ Subtype.val))
  have hfilter := sort_map Subtype.val precedes (xs.attach.filter (f ∘ Subtype.val))
  rw [← List.filter_map, List.attach_map_subtype_val] at hfilter
  rw [hfilter, sort_attach precedes xs, hys]
  exact (congrArg _ hkept).trans (congrArg some List.filter_map.symm)

theorem sort_pairwise {r : α → α → Prop} (hr : xs.Pairwise r) (hs : sort precedes xs = some ys) :
    ys.Pairwise fun x y => precedes x y = true ∨ tied precedes x y = true ∧ r x y := by
  obtain ⟨zs, hzs, hstable⟩ := StableSort.exists_sort h xs.attach
  rw [sort_attach, hzs] at hs
  cases hs
  rw [← List.attach_map_subtype_val xs, List.pairwise_map] at hr
  rw [List.pairwise_map]
  exact hstable.pairwise h hr

end RankedOn

end EntityQuery.StableSort
