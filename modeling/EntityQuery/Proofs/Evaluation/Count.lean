import EntityQuery.Proofs.Evaluation.Tuples
import EntityQuery.Proofs.Evaluation.Groups
/-! Counting the rows of a query: the counts of the groups add up to the number of rows. -/
namespace EntityQuery.Evaluation
open Criteria

def keyOf (b : Bindings) (keys : List Expression) (c : Combination) : List Value :=
  keys.filterMap fun e => (resolve b c e).toOption

section
variable {tables : Tables} {q : Query} {b : Bindings} {cs gs : List Combination} {a : String}
  {c : Combination}

theorem Ready.row (h : Ready tables q b cs) (ha : q.hasAlias a) (hc : c ∈ cs) :
    ∃ v, Evaluation.row c a = .ok v := by
  obtain ⟨r, hr, he⟩ := List.any_eq_true.1 ha
  rw [← h.sources c hc, List.mem_map] at hr
  obtain ⟨x, hx, rfl⟩ := hr
  obtain ⟨y, hy⟩ := Option.isSome_iff_exists.1
    ((List.find?_isSome (p := fun x : Root × Value => decide (x.1.aliasName = a))).2
      ⟨x, hx, by simpa using he⟩)
  exact ⟨y.2, by rw [Evaluation.row, hy]⟩

theorem Ready.resolve (h : Ready tables q b cs) {e : Expression} (he : e ∈ q.expressions)
    (hc : c ∈ cs) : ∃ v, Evaluation.resolve b c e = .ok v := by
  cases e with
  | literal v => exact ⟨v, rfl⟩
  | parameter p =>
    obtain ⟨x, hx, hid⟩ := Query.exists_mem_parameters he
    obtain ⟨v, hv⟩ := Option.isSome_iff_exists.1 (h.bound x hx)
    rw [hid] at hv
    exact ⟨v, by rw [Evaluation.resolve, hv]⟩
  | path p =>
    have ha := h.valid.aliases p.aliasName (mem_referredAliases.2 (.inl ⟨p, he, rfl⟩))
    obtain ⟨v, hv⟩ := h.row ha hc
    exact ⟨_, by rw [Evaluation.resolve, hv]; rfl⟩

theorem Ready.mapM_groupBy (h : Ready tables q b cs) (hc : c ∈ cs) :
    q.groupBy.mapM (Evaluation.resolve b c) = .ok (keyOf b q.groupBy c) := by
  refine mapM_eq_filterMap fun e he => ?_
  obtain ⟨v, hv⟩ := h.resolve (mem_expressions_of_groupBy he) hc
  exact ⟨v, hv, by rw [hv]; rfl⟩

theorem Ready.grouped_eq (h : Ready tables q b cs) (hgroups : q.groupBy ≠ []) :
    Evaluation.grouped b q.groupBy cs = .ok ((groupBy Value.sameItems
      (cs.map fun c => (keyOf b q.groupBy c, c))).map (·.2)) := by
  have hkeyed : (cs.mapM fun c => do
      return (← q.groupBy.mapM (Evaluation.resolve b c), c)) =
        .ok (cs.map fun c => (keyOf b q.groupBy c, c)) :=
    mapM_eq_map fun c hc => by
      rw [h.mapM_groupBy hc]
      rfl
  rw [Evaluation.grouped, if_neg (by simpa using hgroups), hkeyed]
  rfl

/-- Grouping succeeds and puts each combination in one group. -/
theorem Ready.grouped (h : Ready tables q b cs) :
    ∃ groups, Evaluation.grouped b q.groupBy cs = .ok groups ∧ groups.flatten.Perm cs := by
  by_cases hgroups : q.groupBy = []
  · exact ⟨[cs], by rw [Evaluation.grouped, if_pos (by simpa using hgroups)], by simp⟩
  · refine ⟨_, h.grouped_eq hgroups, ?_⟩
    have hperm := groupBy_perm Value.sameItems_self Value.sameItems_comm
      (fun _ _ _ => Value.sameItems_trans) (cs.map fun c => (keyOf b q.groupBy c, c))
    simpa [List.flatMap_def, Function.comp_def] using hperm

theorem countIn_eq_ok {us : List Value} {g : List Combination}
    (h : g.mapM (Evaluation.row · a) = .ok us) (distinct : Bool) :
    countIn a distinct g =
      .ok (.integer (if distinct then firsts Value.same [] us else us).length) := by
  unfold countIn
  rw [h]
  cases distinct <;> rfl

/-- The rows of a source are as many as the counts of the groups add up to, unless different rows
are counted in several groups. -/
theorem Ready.rows_counts (h : Ready tables q b cs) (ha : q.hasAlias a)
    (hg : q.distinct = true → q.groupBy = []) :
    ∃ (vs : List Value) (counts : List Nat), rows cs (some a) q.distinct = .ok vs ∧
      (do (← Evaluation.grouped b q.groupBy cs).mapM (countIn a q.distinct)) =
        .ok (counts.map fun n : Nat => Value.integer n) ∧ counts.sum = vs.length := by
  have hrow : ∀ {g : List Combination}, (∀ c ∈ g, c ∈ cs) →
      ∃ us, g.mapM (Evaluation.row · a) = .ok us ∧ us.length = g.length := by
    intro g hsub
    obtain ⟨us, hus⟩ := exists_mapM_eq_ok fun c hc => h.row ha (hsub c hc)
    exact ⟨us, hus, (mapM_eq_ok_iff.1 hus).length_eq.symm⟩
  obtain ⟨us, hus, hlength⟩ := hrow fun c hc => hc
  have hrows : rows cs (some a) q.distinct =
      .ok (if q.distinct then firsts Value.same [] us else us) := by
    unfold rows
    have hanswer : cs.mapM (answer · (some a)) = .ok us := hus
    rw [hanswer]
    rfl
  by_cases hkeys : q.groupBy = []
  · refine ⟨_, [(if q.distinct then firsts Value.same [] us else us).length], hrows, ?_, by simp⟩
    rw [Evaluation.grouped, hkeys, List.isEmpty_nil, if_pos rfl, ok_bind, List.mapM_cons,
      countIn_eq_ok hus]
    rfl
  · have hdistinct : q.distinct = false := by
      by_contra hn
      exact hkeys (hg (by simpa using hn))
    obtain ⟨groups, hgroups, hperm⟩ := h.grouped
    refine ⟨us, groups.map (·.length), by simpa [hdistinct] using hrows, ?_, ?_⟩
    · rw [hgroups, ok_bind, hdistinct, List.map_map]
      refine mapM_eq_ok_iff.2 (List.forall₂_map_right_iff.2 (List.forall₂_same.2 fun g hg => ?_))
      obtain ⟨ws, hws, hwl⟩ := hrow fun c hc =>
        hperm.mem_iff.1 (List.mem_flatten.2 ⟨g, hg, hc⟩)
      rw [countIn_eq_ok hws]
      simp [hwl]
    · rw [← List.length_flatten, hperm.length_eq, hlength]

end

end EntityQuery.Evaluation
