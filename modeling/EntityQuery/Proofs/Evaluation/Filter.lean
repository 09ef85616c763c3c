import EntityQuery.Proofs.Evaluation.Alike
import EntityQuery.Proofs.Evaluation.Sorted
/-! Conditions about one source. A query that is restricted by one more of them answers those of its
rows that the condition admits, in their order. -/
namespace EntityQuery
open Criteria

def Criteria.Expression.About (r : Root) : Expression → Prop
  | .literal _ => True
  | .path p => p.aliasName = r.aliasName
  | .parameter _ => False

instance (r : Root) (e : Expression) : Decidable (e.About r) :=
  match e with
  | .literal _ => isTrue trivial
  | .path p => inferInstanceAs (Decidable (p.aliasName = r.aliasName))
  | .parameter _ => isFalse id

def Criteria.Predicate.About (r : Root) (p : Predicate) : Prop := ∀ e ∈ p.expressions, e.About r

instance (r : Root) (p : Predicate) : Decidable (p.About r) :=
  inferInstanceAs (Decidable (∀ e ∈ p.expressions, e.About r))

namespace Evaluation

/-- Whether a condition about the source holds of a row of it. -/
def admits (r : Root) (p : Predicate) (v : Value) : Bool :=
  match satisfies [] [(r, v)] p with
  | .ok x => x
  | .error _ => false

def Stored (tables : Tables) (v : Value) : Prop :=
  ∃ entity vs, Dictionary.get? entity tables = some vs ∧ v ∈ vs

/-- On none of the rows stored is a pattern of the condition too large. -/
def Fits (tables : Tables) (r : Root) (p : Predicate) : Prop :=
  ∀ v, Stored tables v → ∀ e, satisfies [] [(r, v)] p = .error e → ¬ TooLarge e

section
variable {tables : Tables} {b : Bindings} {c : Combination} {r : Root} {p : Predicate} {v w : Value}

theorem Stored.mem (h : Stored tables v) : v ∈ tables.flatMap (·.2) := by
  obtain ⟨entity, vs, hvs, hv⟩ := h
  induction tables with
  | nil => cases hvs
  | cons t rest ih =>
    unfold Dictionary.get? at hvs
    split at hvs
    · cases hvs
      exact List.mem_append_left _ hv
    · exact List.mem_append_right _ (ih hvs)

theorem fits_of_isOk (h : ∀ v ∈ tables.flatMap (·.2), (satisfies [] [(r, v)] p).isOk = true) :
    Fits tables r p := by
  intro v hv e he
  have hok := h v hv.mem
  rw [he] at hok
  cases hok

theorem row_singleton (r : Root) (v : Value) : row [(r, v)] r.aliasName = .ok v := by
  rw [row, List.find?_cons_of_pos (by simp)]

theorem satisfies_about (hp : p.About r) (hrow : row c r.aliasName = .ok v) :
    satisfies b c p = satisfies [] [(r, v)] p := by
  refine satisfies_congr fun e he => ?_
  have habout := hp e he
  cases e with
  | literal u => exact .refl _
  | parameter x => exact habout.elim
  | path x =>
    have halias : x.aliasName = r.aliasName := habout
    rw [resolve, resolve, halias, hrow, row_singleton]
    exact .refl _

theorem admits_of_same (h : v.same w = true) : admits r p v = admits r p w := by
  have hsatisfies : satisfies [] [(r, v)] p = satisfies [] [(r, w)] p := by
    refine satisfies_congr fun e _ => ?_
    cases e with
    | literal u => exact .refl _
    | parameter x => exact .refl _
    | path x =>
      rw [resolve, resolve]
      by_cases halias : x.aliasName = r.aliasName
      · rw [halias, row_singleton, row_singleton]
        cases x.attr with
        | none => exact .ok h
        | some a => exact .ok (descend_of_same h _)
      · rw [row, row, List.find?_cons_of_neg (by simpa using Ne.symm halias),
          List.find?_cons_of_neg (by simpa using Ne.symm halias)]
        exact .refl _
  rw [admits, admits, hsatisfies]

theorem satisfies_eq_admits (hp : p.About r) (hfits : Fits tables r p)
    (hrow : row c r.aliasName = .ok v) (hv : Stored tables v) :
    satisfies b c p = .ok (admits r p v) := by
  have hvalue : ∀ e ∈ p.expressions, ∃ u, resolve [] [(r, v)] e = .ok u := by
    intro e he
    have habout := hp e he
    cases e with
    | literal u => exact ⟨u, rfl⟩
    | parameter x => exact habout.elim
    | path x =>
      have halias : x.aliasName = r.aliasName := habout
      rw [resolve, halias, row_singleton]
      exact ⟨_, rfl⟩
  rw [satisfies_about hp hrow, admits]
  cases h : satisfies [] [(r, v)] p with
  | ok x => rfl
  | error e => exact (hfits v hv e h (satisfies_fails hvalue e h)).elim

end

section
variable {tables : Tables} {q : Query} {b : Bindings} {cs ds : List Combination} {r : Root}
  {p p' : Predicate}

theorem stored_of_mem_combinations {roots : List Root} (h : combinations tables roots = .ok cs) :
    ∀ c ∈ cs, ∀ x ∈ c, Stored tables x.2 := by
  induction roots generalizing cs with
  | nil =>
    cases h
    simp
  | cons root roots ih =>
    rw [combinations] at h
    split at h
    · cases h
    · rename_i rows hrows
      obtain ⟨more, hmore, h⟩ := bind_eq_ok_iff.1 h
      cases h
      intro c hc
      obtain ⟨v, hv, hc⟩ := List.mem_flatMap.1 hc
      obtain ⟨d, hd, rfl⟩ := List.mem_map.1 hc
      intro x hx
      obtain rfl | hx := List.mem_cons.1 hx
      · exact ⟨_, _, hrows, hv⟩
      · exact ih hmore d hd x hx

theorem exists_of_row {c : Combination} {a : String} {v : Value} (h : row c a = .ok v) :
    ∃ x ∈ c, x.2 = v := by
  unfold row at h
  split at h
  · rename_i x hx
    cases h
    exact ⟨_, List.mem_of_find?_eq_some hx, rfl⟩
  · cases h

theorem satisfying_and {f : Combination → Bool}
    (h : ∀ c ∈ cs, satisfies b c p' = (satisfies b c p).map (· && f c)) :
    satisfying b p' cs = (satisfying b p cs).map (·.filter f) := by
  induction cs with
  | nil => rfl
  | cons c rest ih =>
    rw [satisfying, satisfying, h c (.head _), ih fun d hd => h d (.tail _ hd)]
    cases satisfies b c p with
    | error e => rfl
    | ok keep =>
      cases satisfying b p rest with
      | error e => rfl
      | ok kept => cases keep <;> cases hf : f c <;> simp [Except.map, hf]

/-- A further condition is evaluated where those before it hold, and its operands come after
theirs. -/
theorem exists_restrictAlso {old : Predicate} (h : q.restriction = some old) (p : Predicate) :
    ∃ new, (q.restrictAlso p).restriction = some new ∧
      new.expressions = old.expressions ++ p.expressions ∧
      ∀ (b : Bindings) (c : Combination), satisfies b c new =
        (satisfies b c old).bind fun x => if x then satisfies b c p else .ok false := by
  have hpair : ∀ (b : Bindings) (c : Combination), satisfies b c (.and [old, p]) =
      (satisfies b c old).bind fun x => if x then satisfies b c p else .ok false := by
    intro b c
    rw [satisfies, satisfiesAll, satisfiesAll_singleton]
    rfl
  unfold Query.restrictAlso
  rw [h]
  cases old with
  | and items =>
    refine ⟨_, rfl, ?_, fun b c => ?_⟩
    · have happend : ∀ items : List Predicate, Predicate.expressionsOf (items ++ [p]) =
          Predicate.expressionsOf items ++ p.expressions := by
        intro items
        induction items with
        | nil => simp [Predicate.expressionsOf]
        | cons item rest ih => simp [Predicate.expressionsOf, ih]
      exact happend items
    · rw [satisfies, satisfiesAll_append, satisfiesAll_singleton, satisfies]
  | _ => exact ⟨_, rfl, by simp [Predicate.expressions, Predicate.expressionsOf], hpair⟩

theorem matching_restrictAlso {f : Combination → Bool}
    (h : ∀ c ∈ cs, satisfies b c p = .ok (f c)) :
    matching b (q.restrictAlso p).restriction cs =
      (matching b q.restriction cs).map (·.filter f) := by
  cases hold : q.restriction with
  | none =>
    rw [Query.restrictAlso, hold]
    exact satisfying_eq_filter h
  | some old =>
    obtain ⟨new, hnew, -, hsatisfies⟩ := exists_restrictAlso hold p
    rw [hnew]
    refine satisfying_and fun c hc => ?_
    rw [hsatisfies, h c hc]
    cases satisfies b c old with
    | error e => rfl
    | ok x => cases x <;> rfl

theorem expressions_restrictAlso (q : Query) (p : Predicate) : ∃ xs ys,
    q.expressions = xs ++ ys ∧ (q.restrictAlso p).expressions = xs ++ (p.expressions ++ ys) := by
  unfold Query.expressions
  simp only [List.append_assoc]
  cases hold : q.restriction with
  | none =>
    refine ⟨[], _, rfl, ?_⟩
    rw [Query.restrictAlso, hold]
    rfl
  | some old =>
    obtain ⟨new, hnew, hexpressions, -⟩ := exists_restrictAlso hold p
    refine ⟨_, _, rfl, ?_⟩
    rw [hnew]
    dsimp only
    rw [hexpressions, List.append_assoc]
    rfl

theorem parameters_restrictAlso (hp : p.About r) : (q.restrictAlso p).parameters = q.parameters := by
  obtain ⟨xs, ys, hold, hnew⟩ := expressions_restrictAlso q p
  have hnone : p.expressions.filterMap Expression.parameter? = [] := by
    refine List.filterMap_eq_nil_iff.2 fun e he => ?_
    have habout := hp e he
    cases e with
    | parameter x => exact habout.elim
    | _ => rfl
  rw [Query.parameters, Query.parameters, hold, hnew]
  simp only [List.filterMap_append, hnone, List.nil_append]

theorem valid_restrictAlso (hp : p.About r) (hsel : q.selection = some (.root r.aliasName)) :
    Valid tables (q.restrictAlso p) ↔ Valid tables q := by
  obtain ⟨xs, ys, hold, hnew⟩ := expressions_restrictAlso q p
  have hmem : ∀ a, a ∈ referredAliases (q.restrictAlso p) ↔ a ∈ referredAliases q := by
    intro a
    rw [mem_referredAliases, mem_referredAliases, hold, hnew]
    show _ ∨ q.selection = _ ∨ (∃ flag, q.selection = _) ↔ _
    constructor
    · rintro (⟨x, hx, rfl⟩ | h)
      · rcases List.mem_append.1 hx with hx | hx
        · exact .inl ⟨x, List.mem_append_left _ hx, rfl⟩
        · rcases List.mem_append.1 hx with hx | hx
          · have halias : x.aliasName = r.aliasName := hp _ hx
            exact .inr (.inl (halias ▸ hsel))
          · exact .inl ⟨x, List.mem_append_right _ hx, rfl⟩
      · exact .inr h
    · rintro (⟨x, hx, rfl⟩ | h)
      · refine .inl ⟨x, ?_, rfl⟩
        rcases List.mem_append.1 hx with hx | hx
        · exact List.mem_append_left _ hx
        · exact List.mem_append_right _ (List.mem_append_right _ hx)
      · exact .inr h
  constructor
  · exact fun h => ⟨h.roots, h.entities, fun a ha => h.aliases a ((hmem a).2 ha)⟩
  · exact fun h => ⟨h.roots, h.entities, fun a ha => h.aliases a ((hmem a).1 ha)⟩

def admitsIn (r : Root) (p : Predicate) (c : Combination) : Bool :=
  admits r p ((row c r.aliasName).toOption.getD .null)

theorem admitsIn_of_row {c : Combination} {v : Value} (h : row c r.aliasName = .ok v) :
    admitsIn r p c = admits r p v := by
  rw [admitsIn, h]
  rfl

theorem matched_restrictAlso (hvalid : Valid tables q) (hsel : q.selection = some (.root r.aliasName))
    (hp : p.About r) (hfits : Fits tables r p) :
    matched tables (q.restrictAlso p) b = (matched tables q b).map (·.filter (admitsIn r p)) := by
  have hnew : Valid tables (q.restrictAlso p) := (valid_restrictAlso hp hsel).2 hvalid
  cases hunbound : q.parameters.find? fun p => (b.value? p.id).isNone with
  | some x =>
    rw [matched_of_unbound hvalid hunbound,
      matched_of_unbound hnew ((parameters_restrictAlso hp).symm ▸ hunbound)]
    rfl
  | none =>
    have hbound := find?_isNone_eq_none_iff.1 hunbound
    obtain ⟨all, hall⟩ := exists_combinations hvalid.entities
    have hready : Ready tables q b all := ⟨hvalid, hbound, sources_of_mem_combinations hall⟩
    have hadmits : ∀ c ∈ all, satisfies b c p = .ok (admitsIn r p c) := by
      intro c hc
      have halias := hvalid.aliases r.aliasName (mem_referredAliases.2 (.inr (.inl hsel)))
      obtain ⟨v, hv⟩ := hready.row halias hc
      obtain ⟨x, hx, rfl⟩ := exists_of_row hv
      rw [admitsIn_of_row hv]
      exact satisfies_eq_admits hp hfits hv (stored_of_mem_combinations hall c hc x hx)
    rw [matched_of_bound hnew ((parameters_restrictAlso hp).symm ▸ hbound),
      matched_of_bound hvalid hbound, show (q.restrictAlso p).roots = q.roots from rfl, hall, ok_bind,
      ok_bind, matching_restrictAlso hadmits]

theorem tuples_restrictAlso (hvalid : Valid tables q) (hsel : q.selection = some (.root r.aliasName))
    (hp : p.About r) (hfits : Fits tables r p)
    (hsort : ∀ cs, matched tables q b = .ok cs → Sortable b q.orders cs) :
    tuples tables (q.restrictAlso p) b = (tuples tables q b).map (·.filter (admitsIn r p)) := by
  rw [tuples, tuples, matched_restrictAlso hvalid hsel hp hfits]
  cases hcs : matched tables q b with
  | error e => rfl
  | ok cs =>
    have hready := matched_eq_ok hcs
    obtain ⟨ds, hds⟩ := hready.exists_sorted (hsort cs hcs)
    show sorted b q.orders (cs.filter _) = (sorted b q.orders cs).map _
    rw [hready.sorted_filter (hsort cs hcs) hds, hds]
    rfl

theorem firsts_filter {α : Type} {same : α → α → Bool} {f : α → Bool}
    (h : ∀ x y, same x y = true → f x = f y) (seen xs : List α) :
    firsts same (seen.filter f) (xs.filter f) = (firsts same seen xs).filter f := by
  induction xs generalizing seen with
  | nil => rfl
  | cons x rest ih =>
    cases hx : f x with
    | false =>
      rw [List.filter_cons_of_neg (by simp [hx]), firsts]
      split
      · exact ih seen
      · rw [List.filter_cons_of_neg (by simp [hx]), ← ih, List.filter_cons_of_neg (by simp [hx])]
    | true =>
      -- What is the same as `x` is admitted like it.
      have hseen : (seen.filter f).any (same · x) = seen.any (same · x) := by
        rw [List.any_filter]
        refine List.any_congr rfl fun y => ?_
        cases hy : same y x with
        | false => simp
        | true => simp [h y x hy, hx]
      rw [List.filter_cons_of_pos hx, firsts, firsts, hseen]
      split
      · exact ih seen
      · rw [List.filter_cons_of_pos hx, ← ih, List.filter_cons_of_pos hx]

theorem rows_filter {a : String} {f : Combination → Bool} {g : Value → Bool}
    (h : ∀ c ∈ cs, ∃ v, row c a = .ok v ∧ f c = g v)
    (hg : ∀ v w, v.same w = true → g v = g w) (distinct : Bool) :
    rows (cs.filter f) (some a) distinct = (rows cs (some a) distinct).map (·.filter g) := by
  obtain ⟨vs, hvs, hkept⟩ : ∃ vs, cs.mapM (answer · (some a)) = .ok vs ∧
      (cs.filter f).mapM (answer · (some a)) = .ok (vs.filter g) := by
    induction cs with
    | nil => exact ⟨[], rfl, rfl⟩
    | cons c rest ih =>
      obtain ⟨vs, hvs, hkept⟩ := ih fun d hd => h d (.tail _ hd)
      obtain ⟨v, hv, hf⟩ := h c (.head _)
      have hanswer : answer c (some a) = .ok v := hv
      refine ⟨v :: vs, by rw [List.mapM_cons, hanswer, hvs]; rfl, ?_⟩
      rw [List.filter_cons, List.filter_cons, hf]
      split
      · rw [List.mapM_cons, hanswer, hkept]
        rfl
      · exact hkept
  rw [rows, rows, hvs, hkept]
  cases distinct with
  | true => exact congrArg Except.ok (firsts_filter hg [] vs)
  | false => rfl

theorem valid_of_execute {vs : List Value} (h : execute tables q b = .ok vs) : Valid tables q := by
  rw [execute_eq] at h
  obtain ⟨cs, hcs, -⟩ := bind_eq_ok_iff.1 h
  exact (tuples_eq_ok hcs).valid

/-- A query that is restricted by one more condition about the source that it selects answers those
of its rows that the condition admits. -/
theorem execute_restrictAlso (hsel : q.selection = some (.root r.aliasName)) (hp : p.About r)
    (hfits : Fits tables r p) (hsort : ∀ cs, matched tables q b = .ok cs → Sortable b q.orders cs)
    (ws : List Value) : execute tables (q.restrictAlso p) b = .ok ws ↔
      ∃ vs, execute tables q b = .ok vs ∧ vs.filter (admits r p) = ws := by
  by_cases hvalid : Valid tables q
  · have hresults : ∀ cs, results (q.restrictAlso p) b cs = rows cs (some r.aliasName) q.distinct ∧
        results q b cs = rows cs (some r.aliasName) q.distinct := by
      intro cs
      unfold results
      rw [show (q.restrictAlso p).selection = q.selection from rfl, hsel]
      exact ⟨rfl, rfl⟩
    rw [execute_eq, execute_eq, tuples_restrictAlso hvalid hsel hp hfits hsort]
    cases hcs : tuples tables q b with
    | error e => simp [Except.map]
    | ok cs =>
      have halias := hvalid.aliases r.aliasName (mem_referredAliases.2 (.inr (.inl hsel)))
      have hrows := rows_filter (fun c hc => by
        obtain ⟨v, hv⟩ := (tuples_eq_ok hcs).row halias hc
        exact ⟨v, hv, admitsIn_of_row hv⟩) (fun v w => admits_of_same (p := p)) q.distinct
      rw [ok_bind, (hresults cs).2, ← map_eq_ok_iff, ← hrows, ← (hresults _).1]
      rfl
  · constructor
    · intro h
      exact (hvalid ((valid_restrictAlso hp hsel).1 (valid_of_execute h))).elim
    · rintro ⟨vs, h, -⟩
      exact (hvalid (valid_of_execute h)).elim

def restrictAll (q : Query) (ps : List Predicate) : Query := ps.foldl Query.restrictAlso q

/-- A query that is restricted further answers those of its rows that all conditions admit. -/
theorem execute_restrictAll {ps : List Predicate} (hsel : q.selection = some (.root r.aliasName))
    (hps : ∀ p ∈ ps, p.About r ∧ Fits tables r p)
    (hsort : ∀ cs, matched tables q b = .ok cs → Sortable b q.orders cs) (ws : List Value) :
    execute tables (restrictAll q ps) b = .ok ws ↔
      ∃ vs, execute tables q b = .ok vs ∧ vs.filter (fun v => ps.all (admits r · v)) = ws := by
  induction ps generalizing q with
  | nil => simp [restrictAll]
  | cons p ps ih =>
    obtain ⟨hp, hfits⟩ := hps p (.head _)
    have hrest := ih (q := q.restrictAlso p) hsel (fun p' hp' => hps p' (.tail _ hp')) ?_
    · show execute tables (restrictAll (q.restrictAlso p) ps) b = _ ↔ _
      rw [hrest]
      constructor
      · rintro ⟨us, hus, rfl⟩
        obtain ⟨vs, hvs, rfl⟩ := (execute_restrictAlso hsel hp hfits hsort us).1 hus
        refine ⟨vs, hvs, ?_⟩
        rw [List.filter_filter]
        exact List.filter_congr fun v _ => Bool.and_comm _ _
      · rintro ⟨vs, hvs, rfl⟩
        refine ⟨_, (execute_restrictAlso hsel hp hfits hsort _).2 ⟨vs, hvs, rfl⟩, ?_⟩
        rw [List.filter_filter]
        exact List.filter_congr fun v _ => Bool.and_comm _ _
    · -- What is sorted are fewer combinations.
      intro ds hds
      have hvalid := (valid_restrictAlso hp hsel).1 (matched_eq_ok hds).valid
      rw [matched_restrictAlso hvalid hsel hp hfits] at hds
      obtain ⟨cs, hcs, rfl⟩ := map_eq_ok_iff.1 hds
      exact (hsort cs hcs).subset List.filter_sublist.subset

end

end Evaluation

end EntityQuery
