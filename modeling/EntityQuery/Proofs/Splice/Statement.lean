import EntityQuery.Proofs.Splice.Addition
import EntityQuery.Proofs.Evaluation.Condition
/-! The query that a text states once a source and a condition are added to it. -/
namespace EntityQuery.QueryText
open Criteria Text Evaluation

section
variable {ts : List Token}

theorem Source.alias {r : Root} (h : Source ts r) :
    isReserved r.aliasName = false ∧ hasDot r.aliasName = false := by
  obtain ⟨-, hr, hd, -⟩ := h
  exact ⟨hr, hd⟩

theorem States.regular {tables : Tables} {q : Query} (hs : States ts q) (h : Valid tables q) :
    Regular q := by
  obtain ⟨hp⟩ := hs
  have hsources : ∀ r ∈ q.roots, isReserved r.aliasName = false ∧ hasDot r.aliasName = false :=
    hp.sources.items fun _ _ h => h.alias
  have hdeclared : ∀ a ∈ referredAliases q, isReserved a = false ∧ hasDot a = false := by
    intro a ha
    obtain ⟨r, hr, he⟩ := List.any_eq_true.1 (h.aliases a ha)
    obtain rfl := beq_iff_eq.1 he
    exact hsources r hr
  refine ⟨fun x hx => ?_, fun a flag hs => ?_⟩
  · exact (hdeclared _ (mem_referredAliases.2 (.inl ⟨x, hx, rfl⟩))).1
  · exact (hdeclared _ (mem_referredAliases.2 (.inr (.inr ⟨flag, hs⟩)))).2

end

section
variable {us ts condition : List Token} {ps ds : List Predicate} {p : Option Predicate}

theorem Disjunction.ne_nil (h : Disjunction ts ps) : ts ≠ [] := by
  rintro rfl
  have hread := h.reads (rfl : keyword? "and" [] = none) rfl
  simpa using hread.1

/-- A condition put in front of a disjunction by `and` joins its first conjunction. -/
theorem Disjunction.and_left (h : Disjunction us ds) :
    ∃ qs rest, ds = joined .and qs :: rest ∧
      ∀ {ns : List Token} {k : Token} {p : Predicate}, Negation ns p → k.isKeyword "and" →
        Disjunction (ns ++ k :: us) (joined .and (p :: qs) :: rest) := by
  cases h with
  | @one _ qs h => exact ⟨qs, [], rfl, fun hn hk => .one (.more hn hk h)⟩
  | @more vs us k qs rest h hk hs =>
    refine ⟨qs, rest, rfl, fun {ns j p} hn hj => ?_⟩
    rw [← List.cons_append, ← List.append_assoc]
    exact .more (.more hn hj h) hk hs

theorem WhereClause.add_nil (h : WhereClause condition p) :
    WhereClause (conditionTokens condition []) p := by
  cases h with
  | absent => exact .absent
  | present hk h => exact .present (isKeyword_reserved (by decide)) h

/-- The restriction once a condition is added: the old one stands in front of the first of the new
disjuncts. -/
def added (old : Option Predicate) (qs ds : List Predicate) : Predicate :=
  match old with
  | none => joined .or (joined .and qs :: ds)
  | some p => joined .or (joined .and (p :: qs) :: ds)

theorem mem_expressions_added {old : Option Predicate} {qs ds : List Predicate} {e : Expression} :
    e ∈ (added old qs ds).expressions ↔ (∃ p ∈ old, e ∈ p.expressions) ∨
      e ∈ Predicate.expressionsOf qs ∨ e ∈ Predicate.expressionsOf ds := by
  cases old with
  | none => simp [added, Predicate.expressionsOf]
  | some p => simp [added, Predicate.expressionsOf]

theorem WhereClause.add (h : WhereClause condition p) (hu : Disjunction us ds) :
    ∃ qs rest, ds = joined .and qs :: rest ∧
      WhereClause (conditionTokens condition us) (some (added p qs rest)) := by
  obtain ⟨qs, rest, rfl, hand⟩ := hu.and_left
  refine ⟨qs, rest, rfl, ?_⟩
  cases h with
  | absent =>
    rw [conditionTokens, if_neg hu.ne_nil]
    exact .present (isKeyword_reserved (by decide)) hu
  | @present k ts ps hk h =>
    rw [conditionTokens, if_neg hu.ne_nil]
    have := hand (.group h) (isKeyword_reserved (by decide))
    exact .present (isKeyword_reserved (by decide)) (by simpa using this)

theorem Listed.append {α : Type} {item : List Token → α → Prop} {as bs : List α}
    (ha : Listed item ts as) (hb : Listed item us bs) :
    Listed item (ts ++ .symbol .comma :: us) (as ++ bs) := by
  induction ha with
  | one h => exact .more h hb
  | more h hs ih =>
    rw [List.append_assoc, List.cons_append, List.cons_append]
    exact .more h ih

end

section
variable {q : Query} {select sources condition groups orders fs : List Token} {k : Token}
  {roots : List Root} {p : Option Predicate}

theorem Parts.add (h : Parts q select k sources condition groups orders)
    (hf : fs = [] ∧ roots = [] ∨ Listed Source fs roots)
    (hn : ((q.roots ++ roots).map (·.aliasName)).Nodup) {new : List Token}
    (hw : WhereClause new p) :
    Parts { q with roots := q.roots ++ roots, restriction := p } select k
      (sources ++ sourceTokens fs) new groups orders := by
  refine ⟨h.select, h.source, ?_, hn, hw, h.groups, h.orders, h.result⟩
  obtain ⟨rfl, rfl⟩ | hf := hf
  · rw [sourceTokens, if_pos rfl, List.append_nil, List.append_nil]
    exact h.sources
  · have hne : fs ≠ [] := by
      cases hf with
      | one h => cases h; simp
      | more h hs => simp
    rw [sourceTokens, if_neg hne]
    exact h.sources.append hf

end

section
variable {b : Bindings} {c : Combination}

theorem satisfies_added (old : Option Predicate) (qs ds : List Predicate) :
    satisfies b c (added old qs ds) =
      match old with
      | none => satisfiesAny b c (joined .and qs :: ds)
      | some p => (satisfies b c p).bind fun x =>
        if x then satisfiesAny b c (joined .and qs :: ds) else satisfiesAny b c ds := by
  cases old with
  | none => rw [added, satisfies_joined_or]
  | some p =>
    rw [added, satisfies_joined_or, satisfiesAny, satisfies_joined_and, satisfiesAll]
    dsimp only
    cases satisfies b c p with
    | error e => rfl
    | ok x =>
      cases x with
      | false => rfl
      | true =>
        rw [satisfiesAny, satisfies_joined_and]
        rfl

end

end EntityQuery.QueryText
