import EntityQuery.Proofs.Evaluation.Multiplicity
import EntityQuery.Proofs.Evaluation.Sorted
import EntityQuery.Proofs.Number.Range
/-! The sequence that a query answers from. The combinations that satisfy its restriction come in
the order of the first of its orders that tells them apart, each in its direction, and those that
no order tells apart come as in the product. There is one such sequence. -/
namespace EntityQuery

/-- The value is no number, or a signed 64-bit integer. -/
def Value.Exact : Value → Prop
  | .number a => a.IsLongInteger
  | _ => True

instance : DecidablePred Value.Exact
  | .number a => inferInstanceAs (Decidable a.IsLongInteger)
  | .null | .bool _ | .string _ | .array _ | .object _ => .isTrue trivial

namespace Evaluation
open Criteria

section
variable {q : Query} {b : Bindings} {o : Order} {orders : List Order} {c d : Combination}

def compareBy (b : Bindings) (c d : Combination) (o : Order) : Except SessionError Ordering := do
  return directed o.direction (← resolve b c o.expression) (← resolve b d o.expression)

/-- No order tells the combinations apart. -/
def Level (b : Bindings) (orders : List Order) (c d : Combination) : Prop :=
  ∀ o ∈ orders, compareBy b c d o = .ok .eq

/-- The first order that tells the combinations apart puts `c` before `d`. -/
def Sooner (b : Bindings) (orders : List Order) (c d : Combination) : Prop :=
  ∃ before o after, orders = before ++ o :: after ∧ Level b before c d ∧
    compareBy b c d o = .ok .lt

/-- The combinations of `all` that satisfy the restriction, each with its position, are in the order
of the query. -/
structure Arranged (q : Query) (b : Bindings) (all : List Combination)
    (ds : List (Combination × Nat)) : Prop where
  perm : ds.Perm (all.zipIdx.filter fun x => decide (Meets q b x.1))
  ordered : ds.Pairwise fun x y =>
    Sooner b q.orders x.1 y.1 ∨ Level b q.orders x.1 y.1 ∧ x.2 < y.2

theorem compareBy_eq_ok {x : Ordering} : compareBy b c d o = .ok x ↔ ∃ u v,
    resolve b c o.expression = .ok u ∧ resolve b d o.expression = .ok v ∧
      directed o.direction u v = x := by
  unfold compareBy
  simp only [bind_eq_ok_iff, pure_eq_ok, Except.ok.injEq]
  exact ⟨fun ⟨u, hu, v, hv, h⟩ => ⟨u, v, hu, hv, h⟩, fun ⟨u, v, hu, hv, h⟩ => ⟨u, hu, v, hv, h⟩⟩

theorem compareBy_swap {x : Ordering} (h : compareBy b c d o = .ok x) :
    compareBy b d c o = .ok x.swap := by
  obtain ⟨u, v, hu, hv, rfl⟩ := compareBy_eq_ok.1 h
  exact compareBy_eq_ok.2 ⟨v, u, hv, hu, directed_swap _ _ _⟩

theorem Level.swap (h : Level b orders c d) : Level b orders d c :=
  fun o ho => compareBy_swap (h o ho)

theorem level_cons : Level b (o :: orders) c d ↔
    compareBy b c d o = .ok .eq ∧ Level b orders c d :=
  List.forall_mem_cons

theorem not_sooner_nil : ¬ Sooner b [] c d := by
  rintro ⟨before, o, after, h, -⟩
  simp at h

theorem sooner_cons : Sooner b (o :: orders) c d ↔
    compareBy b c d o = .ok .lt ∨ compareBy b c d o = .ok .eq ∧ Sooner b orders c d := by
  constructor
  · rintro ⟨before, o', after, h, hbefore, hlt⟩
    cases before with
    | nil =>
      cases h
      exact .inl hlt
    | cons o'' before =>
      cases h
      obtain ⟨heq, hbefore⟩ := level_cons.1 hbefore
      exact .inr ⟨heq, before, o', after, rfl, hbefore, hlt⟩
  · rintro (hlt | ⟨heq, before, o', after, rfl, hbefore, hlt⟩)
    · exact ⟨[], o, orders, rfl, nofun, hlt⟩
    · exact ⟨o :: before, o', after, rfl, level_cons.2 ⟨heq, hbefore⟩, hlt⟩

theorem Sooner.not_level (h : Sooner b orders c d) : ¬ Level b orders c d := by
  obtain ⟨before, o, after, rfl, -, hlt⟩ := h
  intro hlevel
  cases hlt.symm.trans (hlevel o (by simp))

theorem Sooner.asymm (h : Sooner b orders c d) : ¬ Sooner b orders d c := by
  induction orders with
  | nil => exact not_sooner_nil
  | cons o orders ih =>
    intro h'
    obtain hlt | ⟨heq, h⟩ := sooner_cons.1 h
    · obtain hlt' | ⟨heq', -⟩ := sooner_cons.1 h'
      · cases (compareBy_swap hlt).symm.trans hlt'
      · cases (compareBy_swap hlt).symm.trans heq'
    · obtain hlt' | ⟨-, h'⟩ := sooner_cons.1 h'
      · cases (compareBy_swap heq).symm.trans hlt'
      · exact ih h h'

theorem keysPrecede_iff_sooner {us vs : List Value}
    (hu : List.Forall₂ (fun o u => resolve b c o.expression = .ok u) orders us)
    (hv : List.Forall₂ (fun o v => resolve b d o.expression = .ok v) orders vs) :
    keysPrecede (orders.map (·.direction)) us vs = true ↔ Sooner b orders c d := by
  induction orders generalizing us vs with
  | nil => simp [keysPrecede, not_sooner_nil]
  | cons o orders ih =>
    obtain ⟨u, us, hu', hus, rfl⟩ := List.forall₂_cons_left_iff.1 hu
    obtain ⟨v, vs, hv', hvs, rfl⟩ := List.forall₂_cons_left_iff.1 hv
    have hcompare : compareBy b c d o = .ok (directed o.direction u v) :=
      compareBy_eq_ok.2 ⟨u, v, hu', hv', rfl⟩
    rw [sooner_cons, hcompare, ← ih hus hvs, List.map_cons, ← not_iff_not, Bool.not_eq_true,
      keysPrecede_cons_eq_false]
    simp

theorem level_of_tied {us vs : List Value}
    (hu : List.Forall₂ (fun o u => resolve b c o.expression = .ok u) orders us)
    (hv : List.Forall₂ (fun o v => resolve b d o.expression = .ok v) orders vs)
    (huv : keysPrecede (orders.map (·.direction)) us vs = false)
    (hvu : keysPrecede (orders.map (·.direction)) vs us = false) : Level b orders c d := by
  induction orders generalizing us vs with
  | nil => exact nofun
  | cons o orders ih =>
    obtain ⟨u, us, hu', hus, rfl⟩ := List.forall₂_cons_left_iff.1 hu
    obtain ⟨v, vs, hv', hvs, rfl⟩ := List.forall₂_cons_left_iff.1 hv
    rw [List.map_cons, keysPrecede_cons_eq_false] at huv hvu
    have heq : directed o.direction u v = .eq := by
      have hgt := directed_ne_lt_iff.1 hvu.1
      cases h : directed o.direction u v <;> simp_all
    have heq' : directed o.direction v u = .eq := by rw [directed_swap, heq, Ordering.swap_eq]
    exact level_cons.2 ⟨compareBy_eq_ok.2 ⟨u, v, hu', hv', heq⟩,
      ih hus hvs (huv.2 heq) (hvu.2 heq')⟩

theorem Arranged.eq {all : List Combination} {ds es : List (Combination × Nat)}
    (hd : Arranged q b all ds) (he : Arranged q b all es) : ds = es := by
  refine (hd.perm.trans he.perm.symm).eq_of_pairwise (fun x y _ _ hxy hyx => ?_) hd.ordered
    he.ordered
  obtain hxy | ⟨hxy, hlt⟩ := hxy
  · obtain hyx | ⟨hyx, -⟩ := hyx
    · exact (hxy.asymm hyx).elim
    · exact (hxy.not_level hyx.swap).elim
  · obtain hyx | ⟨-, hlt'⟩ := hyx
    · exact (hyx.not_level hxy.swap).elim
    · exact (lt_asymm hlt hlt').elim

theorem Arranged.eq_iff {all : List Combination} {ds : List (Combination × Nat)}
    (hd : Arranged q b all ds) (es : List (Combination × Nat)) : Arranged q b all es ↔ es = ds :=
  ⟨fun he => he.eq hd, fun he => he ▸ hd⟩

end

section
variable {tables : Tables} {q : Query} {b : Bindings} {all kept : List Combination}

theorem Ready.exists_arranged (h : Ready tables q b kept) (hsortable : Sortable b q.orders kept)
    (hkept : kept = all.filter fun c => decide (Meets q b c)) :
    ∃ ds, Arranged q b all ds ∧ sorted b q.orders kept = .ok (ds.map (·.1)) := by
  let items := all.zipIdx.filter fun x => decide (Meets q b x.1)
  have hitems : items.map (·.1) = kept := by
    rw [hkept]
    conv_rhs => rw [← List.zipIdx_map_fst 0 all, List.filter_map]
    rfl
  have hmem : ∀ x ∈ items, x.1 ∈ kept := fun x hx => hitems ▸ List.mem_map_of_mem hx
  have hpositions : items.Pairwise fun x y => x.2 < y.2 := by
    refine List.Pairwise.filter _ (List.pairwise_map.1 ?_)
    rw [List.zipIdx_map_snd]
    exact List.pairwise_lt_range'
  have hranked : StableSort.RankedOn (fun x y => precedesBy b q.orders x.1 y.1) items :=
    hsortable.ranked fun x hx => ⟨hmem x hx, h.mapM_orders (hmem x hx)⟩
  obtain ⟨ds, hds⟩ := hranked.exists_sort
  have hperm := StableSort.sort_perm hds
  refine ⟨ds, ⟨hperm, (hranked.sort_pairwise hpositions hds).imp_of_mem fun {x y} hx hy hxy => ?_⟩, ?_⟩
  · have hx' := mapM_eq_ok_iff.1 (h.mapM_orders (hmem x (hperm.mem_iff.1 hx)))
    have hy' := mapM_eq_ok_iff.1 (h.mapM_orders (hmem y (hperm.mem_iff.1 hy)))
    obtain hsooner | ⟨htied, hlt⟩ := hxy
    · exact .inl ((keysPrecede_iff_sooner hx' hy').1 hsooner)
    · simp only [StableSort.tied, Bool.and_eq_true, Bool.not_eq_true'] at htied
      exact .inr ⟨level_of_tied hx' hy' htied.1 htied.2, hlt⟩
  · rw [h.sorted_eq_ok_iff, ← hitems, StableSort.sort_map]
    exact congrArg (Option.map _) hds

theorem sortable_of_exact (h : ∀ c ∈ kept, ∀ o ∈ q.orders,
    ∀ v ∈ (resolve b c o.expression).toOption, v.Exact) : Sortable b q.orders kept := by
  refine fun o ho => consistent_of_kind (.inl fun a ha => ?_)
  obtain ⟨c, hc, hv⟩ := List.mem_filterMap.1 ha
  exact Number.exists_long (h c hc o ho _ hv)

/-- A valid query whose keys hold no number but signed 64-bit integers answers from one sequence:
that of the combinations that satisfy the restriction, in its order. A distinct query keeps the
first of the rows that are the same in this sequence. There is none only if a pattern of the
restriction is too large. -/
theorem execute_arranged (hvalid : Valid tables q)
    (hbound : ∀ p ∈ q.parameters, (b.value? p.id).isSome)
    (hkeys : ∀ all ∈ (combinations tables q.roots).toOption, ∀ c ∈ all, Meets q b c →
      ∀ o ∈ q.orders, ∀ v ∈ (resolve b c o.expression).toOption, v.Exact) :
    ∃ all, combinations tables q.roots = .ok all ∧ Fails TooLarge (matching b q.restriction all) ∧
      ∀ kept, matching b q.restriction all = .ok kept →
        ∃ ds, (ds.map (·.1)).Perm kept ∧ (∀ es, Arranged q b all es ↔ es = ds) ∧
          execute tables q b = results q b (ds.map (·.1)) ∧
          ((∀ a distinct, q.selection ≠ some (.count a distinct)) →
            let vs := ds.filterMap fun x => component? q x.1
            execute tables q b = .ok (if q.distinct then vs.eraseDups else vs)) := by
  obtain ⟨all, hall⟩ := exists_combinations hvalid.entities
  have hready : Ready tables q b all := ⟨hvalid, hbound, sources_of_mem_combinations hall⟩
  refine ⟨all, hall, hready.matching_fails, fun kept hmatching => ?_⟩
  have hkept := matching_eq_ok hmatching
  have hsortable : Sortable b q.orders kept := sortable_of_exact fun c hc => by
    obtain ⟨hc, hmeets⟩ := List.mem_filter.1 (hkept ▸ hc)
    exact hkeys all (by rw [hall]; rfl) c hc (of_decide_eq_true hmeets)
  obtain ⟨ds, hds, hsorted⟩ :=
    (hready.subset (matching_sublist hmatching).subset).exists_arranged hsortable hkept
  have htuples : tuples tables q b = .ok (ds.map (·.1)) := by
    rw [tuples_of_bound hvalid hbound, hall, ok_bind, hmatching, ok_bind, hsorted]
  have hexecute : execute tables q b = results q b (ds.map (·.1)) := by
    rw [execute_eq, htuples, ok_bind]
  refine ⟨ds, sorted_perm hsorted, hds.eq_iff, hexecute, fun hselection => ?_⟩
  rw [hexecute, (tuples_eq_ok htuples).results_eq hselection, answered, List.filterMap_map,
    firsts_same_eq_eraseDups]
  rfl

/-- Arrays come before the integer, and of the rows that are tied the first one is kept. -/
theorem execute_arranged_joined :
    let keyed (key : Value) (name : String) : Value := .object [("key", key), ("name", .string name)]
    let es := [keyed .null "a", keyed (.integer 2) "b", keyed (.array []) "c",
      keyed (.integer 2) "b", keyed (.array [.integer 1]) "d"]
    let fs := [keyed (.bool true) "y", keyed (.bool false) "x"]
    let tables : Tables := [("E", es), ("F", fs)]
    let q : Query := {
      result := .entity
      roots := [⟨"E", "e"⟩, ⟨"F", "f"⟩]
      restriction := some (.comparison .ne (.path ⟨"e", some "name"⟩) (.literal (.string "a")))
      orders := [⟨.path ⟨"e", some "key"⟩, .desc⟩, ⟨.path ⟨"f", some "key"⟩, .asc⟩]
      distinct := true }
    let all : List Combination := es.flatMap fun e => fs.map fun f =>
      [(⟨"E", "e"⟩, e), (⟨"F", "f"⟩, f)]
    ∃ ds, (ds.map (·.1)).Perm (all.drop 2) ∧ Arranged q [] all ds ∧
      execute tables q [] = .ok (ds.filterMap fun x => component? q x.1).eraseDups ∧
      (execute tables q []).map (Value.sameItems [keyed (.array []) "c",
        keyed (.array [.integer 1]) "d", keyed (.integer 2) "b"]) = .ok true := by
  intro keyed es fs tables q all
  have hvalid : Valid tables q := validate_eq_ok_iff.1 rfl
  obtain ⟨all', hall, -, harranged⟩ :=
    execute_arranged hvalid (b := []) (by decide) (by decide +kernel)
  obtain rfl : all' = all := (Except.ok.inj hall).symm
  obtain ⟨ds, hperm, hds, -, hexecute⟩ := harranged (all.drop 2) rfl
  exact ⟨ds, hperm, (hds ds).2 rfl, hexecute nofun, by decide +kernel⟩

end

end Evaluation

end EntityQuery
