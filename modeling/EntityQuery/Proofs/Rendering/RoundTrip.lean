import EntityQuery.Proofs.Rendering.Query
import EntityQuery.Proofs.Evaluation.Tuples
import EntityQuery.Proofs.Session.Text
/-! The text of a query is read as a query with the same answers. -/
namespace EntityQuery.QueryText
open Criteria Text Evaluation

/-- Different parameters are shown under different names. -/
def Apart (q : Query) : Prop :=
  ∀ p ∈ q.parameters, ∀ p' ∈ q.parameters,
    nameOf (shownNames q) p.id = nameOf (shownNames q) p'.id → p.id = p'.id

/-- The values of the parameters of a query, by the names that its text shows. -/
def valuesByName (q : Query) (b : Bindings) : Bindings :=
  q.parameters.filterMap fun p =>
    (b.value? p.id).map fun v => (.named (nameOf (shownNames q) p.id), v)

theorem value?_eq_some {b : Bindings} {id : ParameterId} {v : Value} (hv : (id, v) ∈ b)
    (huniq : ∀ w, (id, w) ∈ b → w = v) : b.value? id = some v := by
  obtain ⟨⟨i, w⟩, hx⟩ := Option.isSome_iff_exists.1
    ((List.find?_isSome (p := fun x => decide (x.1 = id))).2 ⟨(id, v), hv, by simp⟩)
  obtain rfl : i = id := by simpa using List.find?_some hx
  rw [Bindings.value?, hx, Option.map_some, huniq w (List.mem_of_find?_eq_some hx)]

section
variable {q : Query} {b : Bindings}

theorem value?_valuesByName (ha : Apart q) {p : Parameter} (hp : p ∈ q.parameters)
    (hb : (b.value? p.id).isSome) :
    (valuesByName q b).value? (.named (nameOf (shownNames q) p.id)) = b.value? p.id := by
  obtain ⟨v, hv⟩ := Option.isSome_iff_exists.1 hb
  rw [hv]
  refine value?_eq_some (List.mem_filterMap.2 ⟨p, hp, by rw [hv]; rfl⟩) fun w hw => ?_
  obtain ⟨x, hx, he⟩ := List.mem_filterMap.1 hw
  obtain ⟨u, hu, he⟩ := Option.map_eq_some_iff.1 he
  obtain ⟨hname, rfl⟩ := Prod.mk.inj he
  rw [ha x hx p hp (ParameterId.named.inj hname), hv] at hu
  exact (Option.some.inj hu).symm

theorem isSome_value?_byName (ha : Apart q) (hb : ∀ p ∈ q.parameters, (b.value? p.id).isSome)
    {p : Parameter} (hp : .parameter p ∈ q.expressions) :
    (valuesByName q b).value? (.named (nameOf (shownNames q) p.id)) = b.value? p.id ∧
      (b.value? p.id).isSome := by
  obtain ⟨x, hx, hid⟩ := Query.exists_mem_parameters hp
  rw [← hid]
  exact ⟨value?_valuesByName ha hx (hb x hx), hb x hx⟩

theorem resolve_valuesByName (ha : Apart q) (hb : ∀ p ∈ q.parameters, (b.value? p.id).isSome)
    {e : Expression} (he : e ∈ q.expressions) (c : Combination) :
    resolve (valuesByName q b) c (byName (shownNames q) e) = resolve b c e := by
  refine resolve_byName fun p hp => ?_
  cases e with
  | parameter x =>
    obtain rfl : x = p := Option.some.inj hp
    exact isSome_value?_byName ha hb he
  | _ => cases hp

namespace Printable

theorem forall_expressions (h : Printable q) {P : Expression → Prop} (hv : ∀ v, P (.literal v))
    (hP : ∀ e ∈ q.expressions, P (byName (shownNames q) e)) :
    ∀ e ∈ (writtenQuery q).expressions, P e := by
  intro e he
  rcases mem_expressions.1 he with ⟨p, hp, he⟩ | he
  · obtain ⟨x, hx, rfl⟩ := Option.map_eq_some_iff.1 hp
    exact forall_expressions_written hv
      (fun y hy => hP y (mem_expressions.2 (.inl ⟨x, hx, hy⟩))) e he
  · obtain ⟨p, rfl⟩ := h.keys e he
    exact hP (.path p) (mem_expressions.2 (.inr he))

theorem declared_written (h : Printable q) :
    ∀ a ∈ referredAliases (writtenQuery q), (writtenQuery q).hasAlias a := by
  have hpath : ∀ e ∈ (writtenQuery q).expressions, ∀ p, e = .path p → q.hasAlias p.aliasName := by
    refine h.forall_expressions (fun v p hp => by cases hp) fun e he p hp => ?_
    cases e with
    | path x =>
      cases hp
      exact h.declared _ (mem_referredAliases.2 (.inl ⟨p, he, rfl⟩))
    | _ => cases hp
  intro a ha
  rcases mem_referredAliases.1 ha with ⟨x, hx, rfl⟩ | ha
  · exact hpath _ hx x rfl
  · refine h.shown_hasAlias (ha.imp (fun hs => Option.some.inj hs) fun ⟨flag, hs⟩ => ?_)
    exact ⟨flag, Option.some.inj hs⟩

theorem bound_written (h : Printable q) (ha : Apart q)
    (hb : ∀ p ∈ q.parameters, (b.value? p.id).isSome) :
    ∀ p ∈ (writtenQuery q).parameters, ((valuesByName q b).value? p.id).isSome := by
  have hparameter : ∀ e ∈ (writtenQuery q).expressions, ∀ p, e = .parameter p →
      ((valuesByName q b).value? p.id).isSome := by
    refine h.forall_expressions (fun v p hp => by cases hp) fun e he p hp => ?_
    cases e with
    | parameter x =>
      cases hp
      obtain ⟨hvalue, hbound⟩ := isSome_value?_byName ha hb he
      rw [← hvalue] at hbound
      exact hbound
    | _ => cases hp
  exact fun p hp => hparameter _ (Query.mem_expressions_of_mem_parameters hp) p rfl

theorem resolve_key (h : Printable q) {e : Expression}
    (he : e ∈ q.groupBy ++ q.orders.map (·.expression)) (c : Combination) :
    resolve (valuesByName q b) c e = resolve b c e := by
  obtain ⟨p, rfl⟩ := h.keys e he
  rfl

theorem tuples_written (h : Printable q) (ha : Apart q)
    (hb : ∀ p ∈ q.parameters, (b.value? p.id).isSome) (tables : Tables) :
    tuples tables (writtenQuery q) (valuesByName q b) = tuples tables q b := by
  refine tuples_congr rfl (validate_congr rfl h.declared h.declared_written) hb
    (h.bound_written ha hb) (fun cs => ?_) fun cs => ?_
  · cases hp : q.restriction with
    | none => simp [writtenQuery, matching, hp]
    | some p =>
      have hsatisfies : ∀ c, satisfies (valuesByName q b) c (written (shownNames q) p) =
          satisfies b c p :=
        fun c => satisfies_written fun e he =>
          resolve_valuesByName ha hb (mem_expressions.2 (.inl ⟨p, hp, he⟩)) c
      simpa [writtenQuery, matching, hp] using satisfying_congr hsatisfies cs
  · exact sorted_congr (fun o ho c => h.resolve_key
      (List.mem_append_right _ (List.mem_map_of_mem (f := (·.expression)) ho)) c) cs

theorem results_written (h : Printable q) {cs : List Combination}
    (hcs : ∀ c ∈ cs, c.map (·.1) = q.roots) :
    results (writtenQuery q) (valuesByName q b) cs = results q b cs := by
  have hgrouped : grouped (valuesByName q b) q.groupBy cs = grouped b q.groupBy cs :=
    grouped_congr (fun e he c => h.resolve_key (List.mem_append_left _ he) c) cs
  unfold results writtenQuery shown
  dsimp only
  cases hs : q.selection with
  | some s =>
    cases s with
    | root a => rfl
    | count a distinct => simp only [hgrouped]
  | none =>
    cases hr : q.roots with
    | nil => exact (h.nonempty hr).elim
    | cons r rest => exact rows_first (fun c hc => by rw [hcs c hc, hr]) q.distinct

end Printable

/-- The text of a query that text can write is read as a query that answers the same rows in the
same order, where each name that is shown is bound to the value of its parameter. -/
theorem execute_ofText_text (h : Printable q) (ha : Apart q)
    (hne : ∀ p ∈ q.parameters, p.name ≠ some "") :
    ∃ st, Statement.ofText q.text.toList = .ok st ∧
      ∀ (tables : Tables) (b : Bindings), (∀ p ∈ q.parameters, (b.value? p.id).isSome) →
        execute tables st.query (valuesByName q b) = execute tables q b := by
  obtain ⟨ts, hlex, hstates⟩ := h.states hne
  refine ⟨⟨writtenQuery q, (writtenQuery q).parameters⟩,
    Statement.ofText_eq_ok_iff.2 ⟨ts, scan_eq_ok_iff.2 hlex, hstates, rfl⟩, fun tables b hb => ?_⟩
  rw [execute_eq, execute_eq, h.tuples_written ha hb]
  cases htuples : tuples tables q b with
  | error e => rfl
  | ok cs => exact h.results_written (tuples_eq_ok htuples).sources

end

def nestedQuery : Query where
  result := .entity
  roots := [⟨"A", "a"⟩]
  restriction := some (.and [.or [.comparison .eq (.path ⟨"a", some "x"⟩)
    (.parameter ⟨.declared "p", .any, none⟩), .or []], .not (.isNull (.literal (.string "it's")))])
  orders := [⟨.path ⟨"a", some "x"⟩, .desc⟩]

theorem execute_ofText_text_nested :
    ∃ st, Statement.ofText ("select a from A a where (a.x = :param0 or 1 = 0) and " ++
        "not ('it''s' is null) order by a.x desc").toList = .ok st ∧
      execute [("A", [.object [("x", .integer 1)], .object [("x", .integer 2)]])] st.query
        [(.named "param0", .integer 2)] = .ok [.object [("x", .integer 2)]] := by
  have hparameters : nestedQuery.parameters = [⟨.declared "p", .any, none⟩] := by cbv
  have hname : Name "a" := ⟨by simp [isIdentifier], by cbv⟩
  have hprintable : Printable nestedQuery := by
    refine ⟨by simp [nestedQuery], by simp [nestedQuery, isIdentifier], by simpa [nestedQuery],
      by simp [nestedQuery], ?_, ?_, ?_, by simp [nestedQuery], by simp [hparameters]⟩
    · simp [nestedQuery, referredAliases, Query.expressions, Predicate.expressions,
        Predicate.expressionsOf, Expression.path?, Query.hasAlias]
    · simp [nestedQuery, Query.expressions, Predicate.expressions, Predicate.expressionsOf,
        inIdentifier]
    · simpa [nestedQuery, Query.expressions, Predicate.expressions, Predicate.expressionsOf] using
        Literal.string "it's"
  have hapart : Apart nestedQuery := by simp [Apart, hparameters]
  obtain ⟨st, hst, hrun⟩ := execute_ofText_text hprintable hapart (by simp [hparameters])
  have htext : nestedQuery.text = "select a from A a where (a.x = :param0 or 1 = 0) and " ++
      "not ('it''s' is null) order by a.x desc" := by cbv
  have hvalues : valuesByName nestedQuery [(.declared "p", .integer 2)] =
      [(.named "param0", .integer 2)] := by cbv
  have hbound := hrun [("A", [.object [("x", .integer 1)], .object [("x", .integer 2)]])]
    [(.declared "p", .integer 2)] (by rw [hparameters]; simp [Bindings.value?])
  rw [hvalues] at hbound
  rw [htext] at hst
  exact ⟨st, hst, hbound.trans (by cbv)⟩

def unnamedQuery : Query where
  result := .entity
  roots := [⟨"A", "a"⟩]
  restriction := some (.comparison .eq (.path ⟨"a", some "x"⟩)
    (.parameter ⟨.declared "p", .any, some ""⟩))

/-- The text of a query with an empty parameter name is not read. -/
theorem ofText_text_unnamed : Printable unnamedQuery ∧ Apart unnamedQuery ∧
    Statement.ofText unnamedQuery.text.toList = .error .emptyParameterName := by
  have hparameters : unnamedQuery.parameters = [⟨.declared "p", .any, some ""⟩] := by cbv
  have hname : Name "a" := ⟨by simp [isIdentifier], by cbv⟩
  refine ⟨⟨by simp [unnamedQuery], by simp [unnamedQuery, isIdentifier], by simpa [unnamedQuery],
    by simp [unnamedQuery], ?_, ?_, ?_, by simp [unnamedQuery], by simp [hparameters]⟩,
    by simp [Apart, hparameters], ?_⟩
  · simp [unnamedQuery, referredAliases, Query.expressions, Predicate.expressions,
      Expression.path?, Query.hasAlias]
  · simp [unnamedQuery, Query.expressions, Predicate.expressions, inIdentifier]
  · simp [unnamedQuery, Query.expressions, Predicate.expressions]
  · have htext : unnamedQuery.text = "select a from A a where a.x = :" := by cbv
    have hscan : scan "select a from A a where a.x = :".toList = .error .emptyParameterName := by
      cbv
    rw [htext, Statement.ofText, hscan]
    rfl

end EntityQuery.QueryText
