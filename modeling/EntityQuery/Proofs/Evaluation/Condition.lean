import EntityQuery.Evaluation.Execute
import EntityQuery.QueryText.Statement
import EntityQuery.Proofs.Outcome
/-! The parameters of a query, when it is valid, and what joined conditions are on a combination
of rows. -/
namespace EntityQuery
open Criteria

namespace Criteria.Query
variable {ps : List Parameter} {p : Parameter}

theorem mem_of_mem_firstById (h : p ∈ firstById ps) : p ∈ ps := by
  induction ps with
  | nil => exact h
  | cons x ps ih =>
    rcases List.mem_cons.1 h with rfl | h
    · exact .head _
    · exact .tail _ (ih (List.mem_filter.1 h).1)

theorem exists_mem_firstById (h : p ∈ ps) : ∃ x ∈ firstById ps, x.id = p.id := by
  induction ps with
  | nil => cases h
  | cons x ps ih =>
    by_cases hx : x.id = p.id
    · exact ⟨x, .head _, hx⟩
    · rcases List.mem_cons.1 h with rfl | h
      · exact (hx rfl).elim
      · obtain ⟨y, hy, he⟩ := ih h
        refine ⟨y, .tail _ (List.mem_filter.2 ⟨hy, ?_⟩), he⟩
        rw [decide_eq_true_eq, he]
        exact fun h => hx h.symm

theorem exists_mem_parameters {q : Query} (h : .parameter p ∈ q.expressions) :
    ∃ x ∈ q.parameters, x.id = p.id :=
  exists_mem_firstById (List.mem_filterMap.2 ⟨.parameter p, h, rfl⟩)

theorem mem_expressions_of_mem_parameters {q : Query} (h : p ∈ q.parameters) :
    .parameter p ∈ q.expressions := by
  obtain ⟨e, he, hp⟩ := List.mem_filterMap.1 (mem_of_mem_firstById h)
  cases e with
  | parameter x => exact Option.some.inj hp ▸ he
  | _ => cases hp

theorem firstById_append (ps qs : List Parameter) : firstById ps <+: firstById (ps ++ qs) := by
  induction ps with
  | nil => exact List.nil_prefix
  | cons x ps ih => exact (List.prefix_cons_inj x).2 (ih.filter _)

theorem expressions_eq_append (q : Query) :
    q.expressions = (q.orderedBy []).expressions ++ q.orders.map (·.expression) := by
  simp [expressions, orderedBy]

theorem parameters_orderedBy_nil (q : Query) : (q.orderedBy []).parameters <+: q.parameters := by
  rw [parameters, parameters, q.expressions_eq_append, List.filterMap_append]
  exact firstById_append _ _

end Criteria.Query

namespace Evaluation

section
variable {tables : Tables} {q : Query}

/-- A query that can run: it has a source, its entities are known and its aliases declared. -/
structure Valid (tables : Tables) (q : Query) : Prop where
  roots : q.roots ≠ []
  entities : ∀ r ∈ q.roots, (Dictionary.get? r.entity tables).isSome
  aliases : ∀ a ∈ referredAliases q, q.hasAlias a

theorem mem_expressions {e : Expression} :
    e ∈ q.expressions ↔ (∃ p ∈ q.restriction, e ∈ p.expressions) ∨
      e ∈ q.groupBy ++ q.orders.map (·.expression) := by
  rw [Query.expressions, List.append_assoc, List.mem_append]
  cases q.restriction <;> simp

theorem mem_expressions_of_groupBy {e : Expression} (h : e ∈ q.groupBy) : e ∈ q.expressions :=
  mem_expressions.2 (.inr (List.mem_append_left _ h))

theorem mem_expressions_of_order {o : Order} (h : o ∈ q.orders) : o.expression ∈ q.expressions :=
  mem_expressions.2 (.inr (List.mem_append_right _ (List.mem_map_of_mem h)))

theorem mem_referredAliases {a : String} :
    a ∈ referredAliases q ↔ (∃ x, .path x ∈ q.expressions ∧ x.aliasName = a) ∨
      q.selection = some (.root a) ∨ ∃ flag, q.selection = some (.count a flag) := by
  have hpath : (∃ x, (∃ e ∈ q.expressions, e.path? = some x) ∧ x.aliasName = a) ↔
      ∃ x, .path x ∈ q.expressions ∧ x.aliasName = a := by
    constructor
    · rintro ⟨x, ⟨e, he, hx⟩, ha⟩
      cases e with
      | path y =>
        obtain rfl : y = x := Option.some.inj hx
        exact ⟨y, he, ha⟩
      | _ => cases hx
    · rintro ⟨x, hx, ha⟩
      exact ⟨x, ⟨_, hx, rfl⟩, ha⟩
  rw [referredAliases, List.mem_append, List.mem_map]
  simp only [List.mem_filterMap]
  rw [hpath]
  cases q.selection with
  | none => simp
  | some s => cases s <;> simp [eq_comm]

theorem Valid.orderedBy_nil (h : Valid tables q) : Valid tables (q.orderedBy []) := by
  refine ⟨h.roots, h.entities, fun a ha => h.aliases a (mem_referredAliases.2 ?_)⟩
  refine (mem_referredAliases.1 ha).imp_left fun ⟨x, hx, hxa⟩ => ⟨x, ?_, hxa⟩
  rw [q.expressions_eq_append]
  exact List.mem_append_left _ hx

theorem validate_eq_ok_iff : validate tables q = .ok () ↔ Valid tables q := by
  unfold validate
  constructor
  · intro h
    dsimp only at h
    split at h
    · cases h
    rename_i hroots
    split at h
    · cases h
    rename_i hentities
    split at h
    · cases h
    rename_i haliases
    refine ⟨by simpa using hroots, fun r hr => ?_, fun a ha => ?_⟩
    · exact find?_isNone_eq_none_iff.1 (Option.eq_none_iff_forall_ne_some.2 hentities) r hr
    · have hnone : (referredAliases q).find? (fun a => !q.hasAlias a) = none :=
        Option.eq_none_iff_forall_ne_some.2 fun x hx => haliases x hx
      simpa using List.find?_eq_none.1 hnone a ha
  · rintro ⟨hroots, hentities, haliases⟩
    have haliases : (referredAliases q).find? (fun a => !q.hasAlias a) = none := by
      refine List.find?_eq_none.2 fun a ha => ?_
      simpa using haliases a ha
    have hempty : q.roots.isEmpty = false := by simpa using hroots
    simp only [hempty, find?_isNone_eq_none_iff.2 hentities, haliases]
    rfl

end

section
variable {b : Bindings} {c : Combination}

theorem satisfiesAll_append (ps qs : List Predicate) :
    satisfiesAll b c (ps ++ qs) =
      (satisfiesAll b c ps).bind fun x => if x then satisfiesAll b c qs else .ok false := by
  induction ps with
  | nil => rfl
  | cons p ps ih =>
    rw [List.cons_append, satisfiesAll, satisfiesAll]
    cases satisfies b c p with
    | error e => rfl
    | ok x =>
      cases x with
      | false => rfl
      | true => exact ih

theorem satisfiesAny_append (ps qs : List Predicate) :
    satisfiesAny b c (ps ++ qs) =
      (satisfiesAny b c ps).bind fun x => if x then .ok true else satisfiesAny b c qs := by
  induction ps with
  | nil => rfl
  | cons p ps ih =>
    rw [List.cons_append, satisfiesAny, satisfiesAny]
    cases satisfies b c p with
    | error e => rfl
    | ok x =>
      cases x with
      | false => exact ih
      | true => rfl

theorem satisfiesAll_singleton (p : Predicate) : satisfiesAll b c [p] = satisfies b c p := by
  rw [satisfiesAll]
  cases satisfies b c p with
  | error e => rfl
  | ok x => cases x <;> rfl

theorem satisfiesAny_singleton (p : Predicate) : satisfiesAny b c [p] = satisfies b c p := by
  rw [satisfiesAny]
  cases satisfies b c p with
  | error e => rfl
  | ok x => cases x <;> rfl

/-- A conjunction whose items are spliced in holds like the conjunction of the items. -/
theorem satisfies_allOf (ps : List Predicate) :
    satisfies b c (.allOf ps) = satisfiesAll b c ps := by
  have hitem : ∀ p : Predicate, satisfiesAll b c p.conjuncts = satisfies b c p := by
    intro p
    cases p with
    | and items =>
      rw [satisfies]
      rfl
    | _ => exact satisfiesAll_singleton _
  rw [Predicate.allOf, satisfies]
  induction ps with
  | nil => rfl
  | cons p ps ih =>
    rw [List.flatMap_cons, satisfiesAll_append, hitem, ih, satisfiesAll]
    rfl

theorem satisfies_anyOf (ps : List Predicate) :
    satisfies b c (.anyOf ps) = satisfiesAny b c ps := by
  have hitem : ∀ p : Predicate, satisfiesAny b c p.disjuncts = satisfies b c p := by
    intro p
    cases p with
    | or items =>
      rw [satisfies]
      rfl
    | _ => exact satisfiesAny_singleton _
  rw [Predicate.anyOf, satisfies]
  induction ps with
  | nil => rfl
  | cons p ps ih =>
    rw [List.flatMap_cons, satisfiesAny_append, hitem, ih, satisfiesAny]
    rfl

theorem satisfiesAll_eq_true_iff {ps : List Predicate} :
    satisfiesAll b c ps = .ok true ↔ ∀ p ∈ ps, satisfies b c p = .ok true := by
  induction ps with
  | nil => simp [satisfiesAll]
  | cons p ps ih =>
    rw [satisfiesAll, List.forall_mem_cons, ← ih]
    cases satisfies b c p with
    | error e => simp
    | ok x => cases x <;> simp

theorem satisfies_eq_eq_true {l r : Expression}
    (h : satisfies b c (.comparison .eq l r) = .ok true) :
    ∃ v w, resolve b c l = .ok v ∧ resolve b c r = .ok w ∧ v.same w = true := by
  rw [satisfies] at h
  obtain ⟨v, hv, h⟩ := bind_eq_ok_iff.1 h
  obtain ⟨w, hw, h⟩ := bind_eq_ok_iff.1 h
  refine ⟨v, w, hv, hw, ?_⟩
  have hholds : holds .eq v w = true := Except.ok.inj h
  unfold holds at hholds
  split at hholds
  · cases hholds
  · exact hholds

theorem satisfies_joined_and (ps : List Predicate) :
    satisfies b c (QueryText.joined .and ps) = satisfiesAll b c ps := by
  unfold QueryText.joined
  split
  · exact (satisfiesAll_singleton _).symm
  · rw [satisfies]

theorem satisfies_joined_or (ps : List Predicate) :
    satisfies b c (QueryText.joined .or ps) = satisfiesAny b c ps := by
  unfold QueryText.joined
  split
  · exact (satisfiesAny_singleton _).symm
  · rw [satisfies]

end

end Evaluation

end EntityQuery
