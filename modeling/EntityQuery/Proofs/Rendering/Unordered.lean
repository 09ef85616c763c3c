import EntityQuery.Proofs.Rendering.Query
/-! The text of a query ends in its order clause, and what stands before it is the text of the query
without orders: parameters that only the orders have are named after all others. -/
namespace EntityQuery.Criteria
open QueryText Evaluation

section
variable {names names' : List (ParameterId × String)}

mutual

/-- The text of a condition depends on the texts of its operands alone. -/
theorem Predicate.text_congr {p : Predicate}
    (h : ∀ e ∈ p.expressions, e.text names = e.text names') (nested : Bool) :
    p.text names nested = p.text names' nested := by
  match p with
  | .comparison op l r =>
    rw [Predicate.text, Predicate.text, h l (by simp [expressions]), h r (by simp [expressions])]
  | .like e pattern =>
    rw [Predicate.text, Predicate.text, h e (by simp [expressions]),
      h pattern (by simp [expressions])]
  | .isNull e | .isNotNull e => rw [Predicate.text, Predicate.text, h e (by simp [expressions])]
  | .and [] | .or [] => rw [Predicate.text, Predicate.text]
  | .and [p] | .or [p] =>
    rw [Predicate.text, Predicate.text]
    exact Predicate.text_congr
      (fun e he => h e (by simpa [expressions, expressionsOf] using he)) nested
  | .and (p :: q :: rest) | .or (p :: q :: rest) =>
    rw [Predicate.text, Predicate.text, Predicate.joined_congr (p :: q :: rest) h]
  | .not p =>
    rw [Predicate.text, Predicate.text, Predicate.text_congr (p := p) h]

theorem Predicate.joined_congr (ps : List Predicate)
    (h : ∀ e ∈ expressionsOf ps, e.text names = e.text names') (separator : String) :
    Predicate.joined names separator ps = Predicate.joined names' separator ps := by
  match ps with
  | [] => rfl
  | [p] =>
    rw [Predicate.joined, Predicate.joined]
    exact Predicate.text_congr (fun e he => h e (by simpa [expressionsOf] using he)) true
  | p :: q :: rest =>
    have hfirst := Predicate.text_congr (fun e he => h e (List.mem_append_left _ he)) true
    have hrest := Predicate.joined_congr (q :: rest)
      (fun e he => h e (List.mem_append_right _ he)) separator
    rw [Predicate.joined, Predicate.joined, hfirst, hrest]

end

end

theorem nameOf_of_isPrefix {names more : List (ParameterId × String)} (h : names <+: more)
    {id : ParameterId} (hid : ∃ n ∈ names, n.1 = id) : nameOf more id = nameOf names id := by
  obtain ⟨rest, rfl⟩ := h
  obtain ⟨n, hn, rfl⟩ := hid
  obtain ⟨found, hfound⟩ := Option.isSome_iff_exists.1
    ((List.find?_isSome (p := fun m : ParameterId × String => decide (m.1 = n.1))).2
      ⟨n, hn, decide_eq_true rfl⟩)
  rw [nameOf, nameOf, List.find?_append, hfound]
  rfl

theorem parameterNames_of_isPrefix {ps qs : List Parameter} (h : ps <+: qs) :
    parameterNames ps <+: parameterNames qs := by
  obtain ⟨rest, rfl⟩ := h
  rw [parameterNames, parameterNames, List.mapIdx_append]
  exact List.prefix_append _ _

namespace Query
variable {q : Query}

theorem exists_mem_parameterNames {p : Parameter} (h : .parameter p ∈ q.expressions) :
    ∃ n ∈ parameterNames q.parameters, n.1 = p.id := by
  obtain ⟨x, hx, hid⟩ := exists_mem_parameters h
  obtain ⟨i, hi, rfl⟩ := List.getElem_of_mem hx
  exact ⟨_, List.mem_mapIdx.2 ⟨i, hi, rfl⟩, hid⟩

theorem text_of_mem_expressions {e : Expression} (h : e ∈ (q.orderedBy []).expressions) :
    e.text (shownNames q) = e.text (shownNames (q.orderedBy [])) := by
  cases e with
  | path p => rfl
  | literal v => rfl
  | parameter p =>
    rw [Expression.text, Expression.text, shownNames, shownNames,
      nameOf_of_isPrefix (parameterNames_of_isPrefix q.parameters_orderedBy_nil)
        (exists_mem_parameterNames h)]

def bodyText (names : List (ParameterId × String)) (q : Query) : String :=
  "select " ++ q.selectionText ++ " from " ++
    Text.joinWith ", " (q.roots.map fun r => r.entity ++ " " ++ r.aliasName) ++
    (match q.restriction with | some p => " where " ++ p.text names false | none => "") ++
    listText " group by " (q.groupBy.map (·.text names))

theorem bodyText_congr {names names' : List (ParameterId × String)}
    (h : ∀ e ∈ (q.orderedBy []).expressions, e.text names = e.text names') :
    q.bodyText names = q.bodyText names' := by
  have hgroups : q.groupBy.map (·.text names) = q.groupBy.map (·.text names') :=
    List.map_congr_left fun e he => h e (mem_expressions_of_groupBy he)
  unfold bodyText
  rw [hgroups]
  cases hp : q.restriction with
  | none => rfl
  | some p =>
    have htext := Predicate.text_congr (p := p)
      (fun e he => h e (mem_expressions.2 (.inl ⟨p, hp, he⟩))) false
    simp only [htext]

def orderText (q : Query) : String := listText " order by " (q.orders.map (·.text (shownNames q)))

theorem orderText_eq_empty_iff : q.orderText = "" ↔ q.orders = [] := by
  unfold orderText listText
  cases q.orders with
  | nil => simp
  | cons o rest => simp

/-- The order clause stands behind the text of the query without orders. -/
theorem text_eq_append (q : Query) : q.text = (q.orderedBy []).text ++ q.orderText := by
  have htext (r : Query) : r.text = r.bodyText (shownNames r) ++ r.orderText := rfl
  have hnone : (q.orderedBy []).orderText = "" := orderText_eq_empty_iff.2 rfl
  rw [htext q, htext (q.orderedBy []), hnone, String.append_empty,
    bodyText_congr fun e he => text_of_mem_expressions he]
  rfl

end Query

end EntityQuery.Criteria
