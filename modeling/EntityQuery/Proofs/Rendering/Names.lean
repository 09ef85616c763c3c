import EntityQuery.Proofs.Criteria.Aliases
import EntityQuery.Proofs.Evaluation.Faults
import EntityQuery.Proofs.Rendering.Unordered
import EntityQuery.Proofs.Session.Text
/-! The names under which text shows the parameters of a query. They tell the parameters apart
unless one is called what another, which has no name, is shown as at its place. -/
namespace EntityQuery.Criteria
open QueryText Evaluation

/-- Some parameter has the name that another one, which has none, is shown under. -/
def NameTaken (ps : List Parameter) : Prop :=
  ∃ (i : Nat) (p : Parameter), ps[i]? = some p ∧ p.name = none ∧
    ∃ p' ∈ ps, p'.name = some ("param" ++ toString i)

namespace Query

theorem nodup_firstById (ps : List Parameter) : ((firstById ps).map (·.id)).Nodup := by
  induction ps with
  | nil => exact .nil
  | cons p ps ih =>
    rw [firstById, List.map_cons, List.nodup_cons]
    refine ⟨fun h => ?_, ih.sublist (List.filter_sublist.map _)⟩
    obtain ⟨x, hx, he⟩ := List.mem_map.1 h
    exact of_decide_eq_true (List.mem_filter.1 hx).2 he

end Query

section
variable {ps : List Parameter} {p p' : Parameter}

theorem nameOf_of_mem {names : List (ParameterId × String)} (h : (names.map (·.1)).Nodup)
    {id : ParameterId} {name : String} (hmem : (id, name) ∈ names) : nameOf names id = name := by
  obtain ⟨x, hfound⟩ := Option.isSome_iff_exists.1
    ((List.find?_isSome (p := fun n : ParameterId × String => decide (n.1 = id))).2
      ⟨_, hmem, decide_eq_true rfl⟩)
  have hid : x.1 = id := by simpa using List.find?_some hfound
  obtain rfl : x = (id, name) :=
    List.inj_on_of_nodup_map h (List.mem_of_find?_eq_some hfound) hmem hid
  rw [nameOf, hfound]

theorem nameOf_parameterNames (h : (ps.map (·.id)).Nodup) {i : Nat} (hp : ps[i]? = some p) :
    nameOf (parameterNames ps) p.id = p.name.getD ("param" ++ toString i) := by
  have hids : (parameterNames ps).map (·.1) = ps.map (·.id) :=
    List.ext_getElem? fun i => by simp [parameterNames, Function.comp_def]
  obtain ⟨hi, rfl⟩ := List.getElem?_eq_some_iff.1 hp
  exact nameOf_of_mem (hids ▸ h) (List.mem_mapIdx.2 ⟨i, hi, rfl⟩)

/-- Where different names tell the named parameters apart, all that are shown are told apart unless
a name is taken. -/
theorem nameOf_injective_iff (h : (ps.map (·.id)).Nodup)
    (hnames : ∀ p ∈ ps, ∀ p' ∈ ps, ∀ n ∈ p.name, n ∈ p'.name → p.id = p'.id) :
    (∀ p ∈ ps, ∀ p' ∈ ps,
      nameOf (parameterNames ps) p.id = nameOf (parameterNames ps) p'.id → p.id = p'.id) ↔
        ¬ NameTaken ps := by
  constructor
  · rintro hapart ⟨i, p, hp, hnone, p', hp', hname⟩
    obtain ⟨j, hj⟩ := List.mem_iff_getElem?.1 hp'
    have hid : p.id = p'.id := by
      refine hapart p (List.mem_of_getElem? hp) p' hp' ?_
      rw [nameOf_parameterNames h hp, nameOf_parameterNames h hj, hnone, hname]
      rfl
    -- One of the two has a name, so they are different.
    have heq : p = p' := List.inj_on_of_nodup_map h (List.mem_of_getElem? hp) hp' hid
    rw [heq, hname] at hnone
    cases hnone
  · intro htaken p hp p' hp' he
    obtain ⟨i, hi⟩ := List.mem_iff_getElem?.1 hp
    obtain ⟨j, hj⟩ := List.mem_iff_getElem?.1 hp'
    rw [nameOf_parameterNames h hi, nameOf_parameterNames h hj] at he
    cases hname : p.name with
    | some n =>
      cases hname' : p'.name with
      | some n' =>
        rw [hname, hname'] at he
        exact hnames p hp p' hp' n hname (by rw [hname']; exact congrArg some he.symm)
      | none =>
        rw [hname, hname'] at he
        exact (htaken ⟨j, p', hj, hname', p, hp, by rw [hname]; exact congrArg some he⟩).elim
    | none =>
      cases hname' : p'.name with
      | some n' =>
        rw [hname, hname'] at he
        exact (htaken ⟨i, p, hi, hname, p', hp', by rw [hname']; exact congrArg some he.symm⟩).elim
      | none =>
        rw [hname, hname'] at he
        obtain rfl := append_toString_injective "param" he
        rw [hi] at hj
        exact congrArg _ (Option.some.inj hj)

end

section
variable {q : Query}

/-- The text of a query shows one parameter always alike. Where different names tell its named
parameters apart, it shows different ones differently exactly when none has the name that another
one, which has none, is shown under. -/
theorem parameter_texts_apart_iff
    (hnames : ∀ p ∈ q.parameters, ∀ p' ∈ q.parameters, ∀ n ∈ p.name, n ∈ p'.name → p.id = p'.id) :
    let shown (p : Parameter) : String := Expression.text (shownNames q) (.parameter p)
    (∀ p p', .parameter p ∈ q.expressions → .parameter p' ∈ q.expressions →
      p.id = p'.id → shown p = shown p') ∧
    ((∀ p p', .parameter p ∈ q.expressions → .parameter p' ∈ q.expressions →
      shown p = shown p' → p.id = p'.id) ↔ ¬ NameTaken q.parameters) := by
  intro shown
  have hshown : ∀ p p', shown p = shown p' ↔
      nameOf (parameterNames q.parameters) p.id = nameOf (parameterNames q.parameters) p'.id :=
    fun p p' => String.append_right_inj ":"
  refine ⟨fun p p' _ _ hid => (hshown p p').2 (by rw [hid]), ?_⟩
  have hids : (q.parameters.map (·.id)).Nodup := Query.nodup_firstById _
  rw [← nameOf_injective_iff hids hnames]
  constructor
  · intro h p hp p' hp' he
    exact h p p' (Query.mem_expressions_of_mem_parameters hp)
      (Query.mem_expressions_of_mem_parameters hp') ((hshown p p').2 he)
  · intro h p p' hp hp' he
    obtain ⟨x, hx, hid⟩ := Query.exists_mem_parameters hp
    obtain ⟨x', hx', hid'⟩ := Query.exists_mem_parameters hp'
    rw [hshown, ← hid, ← hid'] at he
    rw [← hid, ← hid']
    exact h x hx x' hx' he

def mixedQuery : Query where
  result := .entity
  roots := [⟨"A", "a"⟩]
  restriction := some (.and [
    .comparison .eq (.path ⟨"a", some "x"⟩) (.parameter ⟨.declared "p", .any, none⟩),
    .not (.like (.parameter ⟨.declared "n", .string, some "param1"⟩)
      (.parameter ⟨.declared "n", .string, some "param1"⟩))])
  groupBy := [.parameter ⟨.declared "m", .any, none⟩]
  orders := [⟨.parameter ⟨.declared "p", .any, none⟩, .desc⟩]

theorem parameter_texts_apart_iff_mixed :
    mixedQuery.text = "select a from A a where a.x = :param0 and not (:param1 like :param1) " ++
      "group by :param2 order by :param0 desc" ∧
    ∀ p p', .parameter p ∈ mixedQuery.expressions → .parameter p' ∈ mixedQuery.expressions →
      (Expression.text (shownNames mixedQuery) (.parameter p) =
        Expression.text (shownNames mixedQuery) (.parameter p') ↔ p.id = p'.id) := by
  have hparameters : mixedQuery.parameters = [⟨.declared "p", .any, none⟩,
      ⟨.declared "n", .string, some "param1"⟩, ⟨.declared "m", .any, none⟩] := by cbv
  have hfree : ¬ NameTaken mixedQuery.parameters := by
    rw [hparameters]
    rintro ⟨i, p, hp, hnone, p', hp', hname⟩
    have hplace : "param" ++ toString i = "param1" := by
      simp only [List.mem_cons, List.not_mem_nil, or_false] at hp'
      obtain rfl | rfl | rfl := hp'
      · cases hname
      · exact (Option.some.inj hname).symm
      · cases hname
    obtain rfl : i = 1 := append_toString_injective "param" hplace
    cases hp
    cases hnone
  obtain ⟨halike, hapart⟩ := parameter_texts_apart_iff (q := mixedQuery) (by simp [hparameters])
  exact ⟨by cbv, fun p p' hp hp' => ⟨hapart.2 hfree p p' hp hp', halike p p' hp hp'⟩⟩

def takenQuery : Query where
  result := .entity
  roots := [⟨"A", "a"⟩]
  restriction := some (.and [
    .comparison .eq (.path ⟨"a", some "x"⟩) (.parameter ⟨.declared "p", .any, none⟩),
    .comparison .eq (.path ⟨"a", some "y"⟩) (.parameter ⟨.declared "n", .any, some "param0"⟩)])

/-- Two parameters are shown as one, and the query that is read from the text has one in their place:
no value of it has the meaning of two that differ. -/
theorem parameter_texts_merged :
    let p : Parameter := ⟨.declared "p", .any, none⟩
    let n : Parameter := ⟨.declared "n", .any, some "param0"⟩
    let c : Combination :=
      [(⟨"A", "a"⟩, .object [("x", .integer 1), ("y", .integer 2)])]
    takenQuery.parameters = [p, n] ∧ isParameterName "param0" = true ∧
      takenQuery.text = "select a from A a where a.x = :param0 and a.y = :param0" ∧
      Meets takenQuery [(p.id, .integer 1), (n.id, .integer 2)] c ∧
      ∃ st, Statement.ofText takenQuery.text.toList = .ok st ∧ st.query.parameters.length = 1 ∧
        ∀ b, ¬ Meets st.query b c := by
  intro p n c
  have hparameters : takenQuery.parameters = [p, n] := by cbv
  have hname : Name "a" := ⟨by simp [isIdentifier], by cbv⟩
  have hprintable : Printable takenQuery := by
    refine ⟨by simp [takenQuery], by simp [takenQuery, isIdentifier], by simpa [takenQuery],
      by simp [takenQuery], ?_, ?_, ?_, by simp [takenQuery], ?_⟩
    · simp [takenQuery, referredAliases, Query.expressions, Predicate.expressions,
        Predicate.expressionsOf, Expression.path?, Query.hasAlias]
    · simp [takenQuery, Query.expressions, Predicate.expressions, Predicate.expressionsOf,
        inIdentifier]
    · simp [takenQuery, Query.expressions, Predicate.expressions, Predicate.expressionsOf]
    · simp [hparameters, p, n, inIdentifier]
  obtain ⟨ts, hlex, hstates⟩ := hprintable.states (by simp [hparameters, p, n])
  have hwritten : (writtenQuery takenQuery).restriction = some (.and [
      .comparison .eq (.path ⟨"a", some "x"⟩) (.parameter (parameterNamed "param0")),
      .comparison .eq (.path ⟨"a", some "y"⟩) (.parameter (parameterNamed "param0"))]) := by cbv
  refine ⟨hparameters, by simp [isParameterName, inIdentifier], by cbv, by decide +kernel,
    ⟨writtenQuery takenQuery, (writtenQuery takenQuery).parameters⟩,
    Statement.ofText_eq_ok_iff.2 ⟨ts, scan_eq_ok_iff.2 hlex, hstates, rfl⟩, by cbv, fun b hmeets => ?_⟩
  have hboth := satisfiesAll_eq_true_iff.1 (hmeets _ hwritten)
  obtain ⟨u, v, hu, hv, huv⟩ := satisfies_eq_eq_true (hboth _ (.head _))
  obtain ⟨w, v', hw, hv', hwv⟩ := satisfies_eq_eq_true (hboth _ (.tail _ (.head _)))
  obtain rfl : u = .integer 1 := (Except.ok.inj hu).symm.trans (by cbv)
  obtain rfl : w = .integer 2 := (Except.ok.inj hw).symm.trans (by cbv)
  obtain rfl : v = v' := Except.ok.inj (hv.symm.trans hv')
  cases Value.same_trans huv ((Value.same_comm _ _).trans hwv)

end

end EntityQuery.Criteria
