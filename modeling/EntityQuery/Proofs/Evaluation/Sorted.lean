import EntityQuery.Proofs.Evaluation.Faults
/-! The order of combinations. Where it is consistent on the values that a query sorts by, the
combinations that are kept of some are sorted like all of them. -/
namespace EntityQuery

theorem Double.compare_swap (a b : Double) : Double.compare b a = (Double.compare a b).swap := by
  unfold Double.compare
  exact Std.OrientedCmp.eq_swap

theorem Number.compare?_swap (a b : Number) : b.compare? a = (a.compare? b).map Ordering.swap := by
  have hdoubles : (do return Double.compare (← b.toDouble?) (← a.toDouble?)) =
      (do return Double.compare (← a.toDouble?) (← b.toDouble?) : Option Ordering).map
        Ordering.swap := by
    cases a.toDouble? with
    | none => cases b.toDouble? <;> rfl
    | some x =>
      cases b.toDouble? with
      | none => rfl
      | some y => exact congrArg some (Double.compare_swap x y)
  unfold compare?
  split
  · rename_i m n
    by_cases hlong : IsLong m ∧ IsLong n
    · rw [if_pos hlong, if_pos hlong.symm]
      exact congrArg some Std.OrientedCmp.eq_swap
    · rw [if_neg hlong, if_neg fun h => hlong h.symm]
      exact hdoubles
  · rename_i hkinds
    split
    · exact (hkinds _ _ rfl rfl).elim
    · exact hdoubles

namespace Evaluation
open Criteria

theorem order?_swap (u v : Value) : order? v u = (order? u v).map Ordering.swap := by
  cases u with
  | number a =>
    cases v with
    | number b => exact a.compare?_swap b
    | _ => rfl
  | string s =>
    cases v with
    | string t => exact congrArg some Std.OrientedCmp.eq_swap
    | _ => rfl
  | _ => cases v <;> rfl

theorem sortOrder_of_rank_ne {u v : Value} (h : rank u ≠ rank v) :
    sortOrder u v = compare (rank u) (rank v) := by
  unfold sortOrder
  rw [if_pos h]

theorem sortOrder_swap (u v : Value) : sortOrder v u = (sortOrder u v).swap := by
  by_cases hrank : rank u = rank v
  · have hvalues : (order? v u).getD .eq = ((order? u v).getD .eq).swap := by
      rw [order?_swap u v]
      cases order? u v <;> rfl
    unfold sortOrder
    rw [if_neg (not_not.2 hrank), if_neg (not_not.2 hrank.symm)]
    split
    · exact Std.OrientedCmp.eq_swap
    · rename_i hkinds
      split
      · exact (hkinds _ _ rfl rfl).elim
      · exact hvalues
  · rw [sortOrder_of_rank_ne hrank, sortOrder_of_rank_ne (Ne.symm hrank)]
    exact Std.OrientedCmp.eq_swap

/-- The order is transitive on the values. It is not on all: two integers compare exactly, but an
integer and a double compare as doubles. -/
def Consistent (vs : List Value) : Prop :=
  ∀ u ∈ vs, ∀ v ∈ vs, ∀ w ∈ vs, sortOrder u v ≠ .gt → sortOrder v w ≠ .gt → sortOrder u w ≠ .gt

instance (vs : List Value) : Decidable (Consistent vs) :=
  inferInstanceAs (Decidable (∀ u ∈ vs, ∀ v ∈ vs, ∀ w ∈ vs,
    sortOrder u v ≠ .gt → sortOrder v w ≠ .gt → sortOrder u w ≠ .gt))

example : ¬ Consistent [.integer (2 ^ 53 + 1),
    .number (.double ⟨false, 2 ^ 52, 1, by decide, by decide, .inl (by decide)⟩),
    .integer (2 ^ 53)] := by
  decide +kernel

theorem Consistent.subset {vs ws : List Value} (h : Consistent ws) (hsub : vs ⊆ ws) :
    Consistent vs :=
  fun u hu v hv w hw => h u (hsub hu) v (hsub hv) w (hsub hw)

theorem compare_ne_gt_trans {α : Type} [Ord α] [Std.TransOrd α] {a b c : α}
    (hab : compare a b ≠ .gt) (hbc : compare b c ≠ .gt) : compare a c ≠ .gt :=
  Ordering.isLE_iff_ne_gt.1 (Std.TransCmp.isLE_trans (Ordering.isLE_iff_ne_gt.2 hab)
    (Ordering.isLE_iff_ne_gt.2 hbc))

theorem rank_le_of_sortOrder {u v : Value} (h : sortOrder u v ≠ .gt) : rank u ≤ rank v := by
  by_contra hlt
  rw [sortOrder_of_rank_ne (by omega), Nat.compare_ne_gt] at h
  exact hlt h

theorem sortOrder_trans {u v w : Value}
    (hnumbers : ∀ l m n, u = .number l → v = .number m → w = .number n →
      sortOrder u v ≠ .gt → sortOrder v w ≠ .gt → sortOrder u w ≠ .gt)
    (huv : sortOrder u v ≠ .gt) (hvw : sortOrder v w ≠ .gt) : sortOrder u w ≠ .gt := by
  have huv' := rank_le_of_sortOrder huv
  have hvw' := rank_le_of_sortOrder hvw
  by_cases hrank : rank u = rank w
  · -- All three are of one kind, and only numbers, strings and truth values have an order.
    have hkind : rank v = rank w := by omega
    cases w with
    | bool z =>
      obtain ⟨x, rfl⟩ : ∃ x, u = .bool x := by cases u <;> simp [rank] at hrank ⊢
      obtain ⟨y, rfl⟩ : ∃ y, v = .bool y := by cases v <;> simp [rank] at hkind ⊢
      exact compare_ne_gt_trans (b := y) huv hvw
    | number n =>
      obtain ⟨l, rfl⟩ : ∃ l, u = .number l := by cases u <;> simp [rank] at hrank ⊢
      obtain ⟨m, rfl⟩ : ∃ m, v = .number m := by cases v <;> simp [rank] at hkind ⊢
      exact hnumbers l m n rfl rfl rfl huv hvw
    | string t =>
      obtain ⟨r, rfl⟩ : ∃ r, u = .string r := by cases u <;> simp [rank] at hrank ⊢
      obtain ⟨s, rfl⟩ : ∃ s, v = .string s := by cases v <;> simp [rank] at hkind ⊢
      exact compare_ne_gt_trans (b := s) huv hvw
    | _ => cases u <;> first | exact (by decide : Ordering.eq ≠ .gt) | simp [rank] at hrank
  · rw [sortOrder_of_rank_ne hrank, Nat.compare_ne_gt]
    exact huv'.trans hvw'

def size : Number → Int
  | .integer n => n
  | .double d => d.units

/-- Values are ordered consistently when their numbers compare by size. -/
theorem consistent_of_size {vs : List Value}
    (h : ∀ a b, .number a ∈ vs → .number b ∈ vs → a.compare? b = some (compare (size a) (size b))) :
    Consistent vs := by
  have hsize : ∀ a b, .number a ∈ vs → .number b ∈ vs →
      sortOrder (.number a) (.number b) = compare (size a) (size b) :=
    fun a b ha hb => congrArg (·.getD .eq) (h a b ha hb)
  intro u hu v hv w hw huv hvw
  refine sortOrder_trans ?_ huv hvw
  rintro l m n rfl rfl rfl huv hvw
  rw [hsize _ _ hu hv] at huv
  rw [hsize _ _ hv hw] at hvw
  rw [hsize _ _ hu hw]
  exact compare_ne_gt_trans huv hvw

theorem consistent_of_kind {vs : List Value}
    (h : (∀ a, .number a ∈ vs → ∃ n, a = .integer n ∧ Number.IsLong n) ∨
      ∀ a, .number a ∈ vs → ∃ d, a = .double d) : Consistent vs := by
  refine consistent_of_size fun a b ha hb => ?_
  obtain h | h := h
  · obtain ⟨m, rfl, hm⟩ := h a ha
    obtain ⟨n, rfl, hn⟩ := h b hb
    rw [Number.compare?, if_pos ⟨hm, hn⟩]
    rfl
  · obtain ⟨d, rfl⟩ := h a ha
    obtain ⟨e, rfl⟩ := h b hb
    rfl

def directed : Direction → Value → Value → Ordering
  | .asc, u, v => sortOrder u v
  | .desc, u, v => sortOrder v u

theorem directed_swap (d : Direction) (u v : Value) : directed d v u = (directed d u v).swap := by
  cases d with
  | asc => exact sortOrder_swap u v
  | desc => exact sortOrder_swap v u

theorem directed_ne_lt_iff {d : Direction} {u v : Value} :
    directed d v u ≠ .lt ↔ directed d u v ≠ .gt := by
  rw [directed_swap d u v]
  cases directed d u v <;> decide

theorem Consistent.directed {vs : List Value} (h : Consistent vs) (d : Direction) {u v w : Value}
    (hu : u ∈ vs) (hv : v ∈ vs) (hw : w ∈ vs) (huv : directed d u v ≠ .gt)
    (hvw : Evaluation.directed d v w ≠ .gt) : Evaluation.directed d u w ≠ .gt := by
  cases d with
  | asc => exact h u hu v hv w hw huv hvw
  | desc => exact h w hw v hv u hu hvw huv

theorem keysPrecede_cons_eq_false {d : Direction} {ds : List Direction} {u v : Value}
    {us vs : List Value} : keysPrecede (d :: ds) (u :: us) (v :: vs) = false ↔
      directed d u v ≠ .lt ∧ (directed d u v = .eq → keysPrecede ds us vs = false) := by
  have hswap := sortOrder_swap u v
  cases d <;> cases huv : sortOrder u v <;> rw [huv] at hswap <;>
    simp [keysPrecede, directed, huv, hswap]

theorem keysPrecede_asymm {ds : List Direction} {us vs : List Value}
    (h : keysPrecede ds us vs = true) : keysPrecede ds vs us = false := by
  induction ds generalizing us vs with
  | nil => simp [keysPrecede] at h
  | cons d ds ih =>
    cases us with
    | nil => simp [keysPrecede] at h
    | cons u us =>
      cases vs with
      | nil => simp [keysPrecede] at h
      | cons v vs =>
        rw [← Bool.not_eq_false, keysPrecede_cons_eq_false] at h
        rw [keysPrecede_cons_eq_false, directed_swap d u v]
        cases hd : directed d u v with
        | lt => simp
        | eq =>
          refine ⟨by decide, fun _ => ih ?_⟩
          by_contra hn
          exact h ⟨by simp [hd], fun _ => by simpa using hn⟩
        | gt => exact (h ⟨by simp [hd], fun he => by simp [hd] at he⟩).elim

theorem keysPrecede_trans {orders : List Order} {column : Order → List Value}
    (h : ∀ o ∈ orders, Consistent (column o)) {us vs ws : List Value}
    (hu : List.Forall₂ (fun o u => u ∈ column o) orders us)
    (hv : List.Forall₂ (fun o v => v ∈ column o) orders vs)
    (hw : List.Forall₂ (fun o w => w ∈ column o) orders ws)
    (huv : keysPrecede (orders.map (·.direction)) vs us = false)
    (hvw : keysPrecede (orders.map (·.direction)) ws vs = false) :
    keysPrecede (orders.map (·.direction)) ws us = false := by
  induction orders generalizing us vs ws with
  | nil => rfl
  | cons o orders ih =>
    obtain ⟨u, us, hu', hus, rfl⟩ := List.forall₂_cons_left_iff.1 hu
    obtain ⟨v, vs, hv', hvs, rfl⟩ := List.forall₂_cons_left_iff.1 hv
    obtain ⟨w, ws, hw', hws, rfl⟩ := List.forall₂_cons_left_iff.1 hw
    rw [List.map_cons, keysPrecede_cons_eq_false] at *
    obtain ⟨hvu, huv⟩ := huv
    obtain ⟨hwv, hvw⟩ := hvw
    have ho := h o (.head _)
    refine ⟨directed_ne_lt_iff.2 (ho.directed _ hu' hv' hw' (directed_ne_lt_iff.1 hvu)
      (directed_ne_lt_iff.1 hwv)), fun hwu => ?_⟩
    -- Keys that are tied at the ends are tied with the ones between them.
    have hle : directed o.direction w u ≠ .gt := by simp [hwu]
    have hvu' := ho.directed _ hv' hw' hu' (directed_ne_lt_iff.1 hwv) hle
    have hwv' := ho.directed _ hw' hu' hv' hle (directed_ne_lt_iff.1 hvu)
    refine ih (fun o ho => h o (.tail _ ho)) hus hvs hws (huv ?_) (hvw ?_)
    · cases hd : directed o.direction v u <;> simp_all
    · cases hd : directed o.direction w v <;> simp_all

/-- Each of the orders is consistent on the values that it orders combinations by. -/
def Sortable (b : Bindings) (orders : List Order) (cs : List Combination) : Prop :=
  ∀ o ∈ orders, Consistent (cs.filterMap fun c => (resolve b c o.expression).toOption)

instance (b : Bindings) (orders : List Order) (cs : List Combination) :
    Decidable (Sortable b orders cs) :=
  inferInstanceAs (Decidable (∀ o ∈ orders, Consistent _))

section
variable {tables : Tables} {q : Query} {b : Bindings} {orders : List Order}
  {cs ds : List Combination}

theorem Sortable.subset (h : Sortable b orders cs) (hds : ds ⊆ cs) : Sortable b orders ds :=
  fun o ho => (h o ho).subset fun _ hv => by
    obtain ⟨c, hc, hv⟩ := List.mem_filterMap.1 hv
    exact List.mem_filterMap.2 ⟨c, hds hc, hv⟩

/-- Consistent orders rank items by the keys of their combinations. -/
theorem Sortable.ranked (h : Sortable b orders cs) {ι : Type} {xs : List ι} {f : ι → Combination}
    (hxs : ∀ x ∈ xs, f x ∈ cs ∧
      (orders.mapM fun o => resolve b (f x) o.expression) = .ok (keysOf b orders (f x))) :
    StableSort.RankedOn (fun x y => precedesBy b orders (f x) (f y)) xs := by
  have hcolumns : ∀ x ∈ xs, List.Forall₂ (fun o u => u ∈ cs.filterMap fun c =>
      (resolve b c o.expression).toOption) orders (keysOf b orders (f x)) := by
    intro x hx
    obtain ⟨hc, hkeys⟩ := hxs x hx
    refine (mapM_eq_ok_iff.1 hkeys).imp fun o u hu => List.mem_filterMap.2 ⟨f x, hc, ?_⟩
    rw [hu]
    rfl
  exact ⟨keysPrecede_asymm, keysPrecede_trans h (hcolumns _ (Subtype.property _))
    (hcolumns _ (Subtype.property _)) (hcolumns _ (Subtype.property _))⟩

section
variable (h : Ready tables q b cs) (hsortable : Sortable b q.orders cs)
include h hsortable

theorem Ready.rankedOn : StableSort.RankedOn (precedesBy b q.orders) cs :=
  hsortable.ranked fun _ hc => ⟨hc, h.mapM_orders hc⟩

theorem Ready.exists_sorted : ∃ ds, sorted b q.orders cs = .ok ds := by
  obtain ⟨ds, hds⟩ := (h.rankedOn hsortable).exists_sort
  exact ⟨ds, h.sorted_eq_ok_iff.2 hds⟩

theorem Ready.sorted_filter (hsorted : sorted b q.orders cs = .ok ds) (p : Combination → Bool) :
    sorted b q.orders (cs.filter p) = .ok (ds.filter p) := by
  have hkept : Ready tables q b (cs.filter p) := h.subset fun _ hc => List.mem_of_mem_filter hc
  rw [hkept.sorted_eq_ok_iff, (h.rankedOn hsortable).sort_filter, h.sorted_eq_ok_iff.1 hsorted]
  rfl

end

/-- The sort finds no contradiction among few combinations, nor where the orders are consistent. -/
theorem Disordered.length_gt (h : Disordered tables q b) : ∃ kept, matched tables q b = .ok kept ∧
    StableSort.insertionMax < kept.length ∧ ¬ Sortable b q.orders kept := by
  obtain ⟨kept, hkept, hnone⟩ := h
  refine ⟨kept, hkept, ?_, fun hsortable => ?_⟩
  · by_contra hshort
    obtain ⟨ds, hds⟩ := StableSort.exists_sort_of_short (precedesBy b q.orders) (not_lt.1 hshort)
    rw [hds] at hnone
    cases hnone
  · obtain ⟨ds, hds⟩ := ((matched_eq_ok hkept).rankedOn hsortable).exists_sort
    rw [hds] at hnone
    cases hnone

theorem not_disordered_of_short
    (h : ∀ kept ∈ (matched tables q b).toOption, kept.length ≤ StableSort.insertionMax) :
    ¬ Disordered tables q b := by
  intro hdisordered
  obtain ⟨kept, hkept, hlt, -⟩ := hdisordered.length_gt
  exact hlt.not_ge (h kept (by rw [hkept]; rfl))

end

/-- Rows that cannot be sorted by `x`: the double `2 ^ 53` is equal to two integers that are not. -/
def clashingRows : List Value :=
  let row (x : Value) : Value := .object [("x", x)]
  let double : Value := (Double.ofInt? (2 ^ 53)).elim .null (.number ∘ .double)
  row (.integer (2 ^ 53 + 1)) :: row (.integer (2 ^ 53)) :: List.replicate 9 (row double) ++
    List.replicate 11 (row (.integer (2 ^ 53)))

end Evaluation

end EntityQuery
