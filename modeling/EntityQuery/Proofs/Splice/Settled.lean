import EntityQuery.Augmentation.Basic
import EntityQuery.Proofs.Splice.Alias
import EntityQuery.Proofs.Splice.Statement
/-! Texts that a session accepts, and that they stay so when sources and conditions are added. -/
namespace EntityQuery.QueryText
open Criteria Text Evaluation

/-- The query `p` is `q` with sources and conditions added: it answers the same, of the
combinations of which all the conditions hold too. -/
structure Extends (q p : Query) (roots : List Root) (conditions : List Predicate) : Prop where
  selection : p.selection = q.selection
  distinct : p.distinct = q.distinct
  groupBy : p.groupBy = q.groupBy
  orders : p.orders = q.orders
  roots : p.roots = q.roots ++ roots
  restriction : ∀ b c, satisfiesAll b c p.restriction.toList =
    satisfiesAll b c (q.restriction.toList ++ conditions)

theorem Extends.refl (q : Query) : Extends q q [] [] :=
  ⟨rfl, rfl, rfl, rfl, by simp, by simp⟩

theorem Extends.trans {q p r : Query} {roots more : List Root} {conditions others : List Predicate}
    (h : Extends q p roots conditions) (h' : Extends p r more others) :
    Extends q r (roots ++ more) (conditions ++ others) := by
  refine ⟨h'.selection.trans h.selection, h'.distinct.trans h.distinct,
    h'.groupBy.trans h.groupBy, h'.orders.trans h.orders, ?_, fun b c => ?_⟩
  · rw [h'.roots, h.roots, List.append_assoc]
  · rw [h'.restriction, satisfiesAll_append, h.restriction, ← satisfiesAll_append,
      List.append_assoc]

section
variable {ts : List Token}

theorem Source.of_reads {r : Root} (h : (source ts).Reads r []) : Source ts r := by
  obtain ⟨hlt, h⟩ := h
  obtain ⟨us, he, hs⟩ := source_eq_ok h
  rw [List.append_nil] at he
  rwa [he]

end

/-- Tokens of at most one source, of a known entity and under an alias that is not yet declared. -/
inductive AddsSource (tables : Tables) (declared : List Root) : List Token → List Root → Prop
  | none : AddsSource tables declared [] []
  | one {ts : List Token} {r : Root} (h : (source ts).Reads r [])
    (hentity : (Dictionary.get? r.entity tables).isSome)
    (hdistinct : Distinct r)
    (hnew : ∀ x ∈ declared, x.aliasName ≠ r.aliasName) : AddsSource tables declared ts [r]

section
variable {tables : Tables} {declared : List Root} {ts : List Token} {roots : List Root}

theorem AddsSource.entity (h : AddsSource tables declared ts roots) :
    ∀ r ∈ roots, (Dictionary.get? r.entity tables).isSome := by
  cases h with
  | none => simp
  | one _ hentity => simpa using hentity

theorem AddsSource.distinct (h : AddsSource tables declared ts roots) : ∀ r ∈ roots, Distinct r := by
  cases h with
  | none => simp
  | one _ _ hdistinct => simpa using hdistinct

theorem AddsSource.listed (h : AddsSource tables declared ts roots) :
    ts = [] ∧ roots = [] ∨ Listed Source ts roots := by
  cases h with
  | none => exact .inl ⟨rfl, rfl⟩
  | one h => exact .inr (.one (.of_reads h))

theorem AddsSource.nodup (h : AddsSource tables declared ts roots)
    (hn : (declared.map (·.aliasName)).Nodup) :
    ((declared ++ roots).map (·.aliasName)).Nodup := by
  cases h with
  | none => rwa [List.append_nil]
  | one _ _ _ hnew =>
    rw [List.map_append, List.nodup_append]
    refine ⟨hn, by simp, fun a ha b hb => ?_⟩
    obtain rfl := List.mem_singleton.1 hb
    obtain ⟨x, hx, rfl⟩ := List.mem_map.1 ha
    exact hnew x hx

end

/-- Tokens of at most one condition, without `or` outside parentheses. -/
inductive AddsCondition : List Token → List Predicate → Prop
  | none : AddsCondition [] []
  | one {ts : List Token} {ps : List Predicate} (h : (conjuncts ts).Reads ps []) :
    AddsCondition ts [joined .and ps]

theorem AddsCondition.whereClause {us ws : List Token} {conditions : List Predicate}
    {old : Option Predicate} (h : AddsCondition us conditions) (hw : WhereClause ws old) :
    ∃ new, WhereClause (conditionTokens ws us) new ∧
      (∀ b c, satisfiesAll b c new.toList = satisfiesAll b c (old.toList ++ conditions)) ∧
      ∀ p ∈ new, ∀ e ∈ p.expressions,
        (∃ p ∈ old, e ∈ p.expressions) ∨ ∃ p ∈ conditions, e ∈ p.expressions := by
  cases h with
  | none => exact ⟨old, hw.add_nil, by simp, fun p hp e he => .inl ⟨p, hp, he⟩⟩
  | @one _ ps h =>
    obtain ⟨qs, rest, hds, hclause⟩ := hw.add (.one (.of_reads h))
    obtain ⟨hps, rfl⟩ := List.cons.inj hds
    rw [hps]
    refine ⟨_, hclause, fun b c => ?_, fun p hp e he => ?_⟩
    · rw [Option.toList_some, satisfiesAll_singleton, satisfies_added]
      cases old with
      | none => exact (satisfiesAny_singleton _).trans (satisfiesAll_singleton _).symm
      | some p =>
        simp only [Option.toList_some, List.singleton_append]
        rw [satisfiesAll, satisfiesAny_singleton, satisfiesAll_singleton]
        rfl
    · obtain rfl := Option.some.inj hp
      rcases mem_expressions_added.1 he with he | he | he
      · exact .inl he
      · exact .inr ⟨_, List.mem_singleton_self _, by simpa using he⟩
      · cases he

def Unglued (text : List Char) : Prop := ∃ ts, Lexes Token.abuts [] text ts

theorem Unglued.lexes {text : List Char} {ts : List Token} (h : Unglued text)
    (hs : scan text = .ok ts) : Lexes Token.abuts [] text ts := by
  obtain ⟨us, hu⟩ := h
  have := scan_eq_ok_iff.2 (hu.mono fun _ _ => Token.abuts_of_extends)
  rw [hs] at this
  cases this
  exact hu

theorem Unglued.of_scan {text : List Char} {ts : List Token} (h : scan text = .ok ts)
    (hn : ∀ n, .number n ∉ ts) : Unglued text := by
  refine ⟨ts, ?_⟩
  have hl := scan_eq_ok_iff.1 h
  clear h
  induction hl with
  | nil => exact .nil
  | blank hc _ ih => exact .blank hc (ih hn)
  | @token _ _ t _ hu hf _ ih =>
    refine .token hu (fun x hx => ?_) (ih fun n hm => hn n (.tail _ hm))
    cases t with
    | number n => exact (hn n (.head _)).elim
    | _ => exact hf x hx

def Ascii (ts : List Token) : Prop := ∀ s, .word s ∈ ts → ∀ c ∈ s.toList, c.toNat < 128

/-- What is known of a text that a session accepts: the tokens it is made of, the query they state,
and that the clause scan and the pattern for sources read it as the parser does. -/
structure Settled (tables : Tables) (text : List Char) (ts : List Token) (q : Query) : Prop where
  lexes : Lexes Token.abuts [] text ts
  states : States ts q
  valid : Valid tables q
  ascii : Ascii ts
  entities : ∀ r ∈ q.roots, Distinct r

namespace Settled
variable {tables : Tables} {text : List Char} {ts : List Token} {q : Query}

theorem regular (h : Settled tables text ts q) : Regular q := h.states.regular h.valid

theorem cut (h : Settled tables text ts q) :
    ∃ select k sources condition groups orders a b c pos,
      Parts q select k sources condition groups orders ∧
      ts = select ++ k :: (sources ++ (condition ++ (groups ++ orders))) ∧ text = a ++ (b ++ c) ∧
      Cut Token.abuts a b c (select ++ k :: sources) condition (groups ++ orders) ∧
      Clauses.ofText (a ++ (b ++ c)) =
        { source := some pos
          condition := if b = [] then none else some a.length
          tail := if c = [] then none else some (a.length + b.length) } := by
  have hq := h.regular
  obtain ⟨hlexes, ⟨hp⟩, -, -, he⟩ := h
  rename_i select sources condition groups orders k
  have hgroup : select ++ k :: (sources ++ (condition ++ (groups ++ orders))) =
      (select ++ k :: sources) ++ (condition ++ (groups ++ orders)) := by simp
  rw [hgroup] at hlexes
  obtain ⟨a, b, c, rfl, hc⟩ := hlexes.cut
  have hle : ∀ t x, Token.extends t x = true → Token.abuts t x = true :=
    fun _ _ => Token.abuts_of_extends
  have hclean : c ≠ [] → Clean (b.getLast?.or a.getLast?) := by
    intro hne
    obtain hnil | ⟨g, d, more, word, hts, hg, -⟩ := hp.tail_shape
    · exact absurd (hc.tail_nil_iff.2 hnil) hne
    · have htail := hc.tail
      rw [hts] at htail
      obtain ⟨ls, rest, hls, hl, -⟩ := htail.uncons hc.tail_starts
      obtain ⟨x, xs, rfl, hx, -⟩ := hl.of_isKeyword hg
      subst hls
      rw [← List.getLast?_append]
      obtain hclean | ⟨n, -, -, -, -, hn⟩ := (hc.head.append hc.condition).clean_or_number hle hx
      · exact hclean
      · simp [Token.abuts, hx] at hn
  obtain ⟨pos, hof⟩ := hp.ofText hq he (hc.mono hle) hclean
  exact ⟨_, _, _, _, _, _, a, b, c, pos, hp, rfl, rfl, hc, hof⟩

variable {source condition : List Char} {fs us : List Token} {roots : List Root}
  {conditions : List Predicate}

theorem valid_add (h : Valid tables q) (hroots : ∀ r ∈ roots, (Dictionary.get? r.entity tables).isSome)
    {new : Option Predicate} (hnew : ∀ p ∈ new, ∀ e ∈ p.expressions,
      (∃ p ∈ q.restriction, e ∈ p.expressions) ∨ ∃ p ∈ conditions, e ∈ p.expressions)
    (hdeclared : ∀ p ∈ conditions, ∀ x, .path x ∈ p.expressions →
      ∃ r ∈ q.roots ++ roots, r.aliasName = x.aliasName) :
    Valid tables { q with roots := q.roots ++ roots, restriction := new } := by
  have hkept : ∀ a ∈ referredAliases q, ∃ r ∈ q.roots ++ roots, r.aliasName = a := by
    intro a ha
    obtain ⟨r, hr, he⟩ := List.any_eq_true.1 (h.aliases a ha)
    exact ⟨r, List.mem_append_left _ hr, beq_iff_eq.1 he⟩
  refine ⟨by simp [h.roots], fun r hr => ?_, fun a ha => ?_⟩
  · rcases List.mem_append.1 hr with hr | hr
    · exact h.entities r hr
    · exact hroots r hr
  · suffices hsome : ∃ r ∈ q.roots ++ roots, r.aliasName = a by
      obtain ⟨r, hr, he⟩ := hsome
      exact List.any_eq_true.2 ⟨r, hr, beq_iff_eq.2 he⟩
    obtain ⟨x, hx, rfl⟩ | hselected := mem_referredAliases.1 ha
    · have hold : .path x ∈ q.expressions → ∃ r ∈ q.roots ++ roots, r.aliasName = x.aliasName :=
        fun hmem => hkept _ (mem_referredAliases.2 (.inl ⟨x, hmem, rfl⟩))
      obtain ⟨p, hp, he⟩ | he := mem_expressions.1 hx
      · obtain hq | ⟨p, hp, he⟩ := hnew p hp _ he
        · exact hold (mem_expressions.2 (.inl hq))
        · exact hdeclared p hp x he
      · exact hold (mem_expressions.2 (.inr he))
    · exact hkept a (mem_referredAliases.2 (.inr hselected))

/-- A text stays settled when a source and a condition are added to it, and states the extended
query. -/
theorem add (h : Settled tables text ts q) (hsource : Lexes Token.abuts [] source fs)
    (hroots : AddsSource tables q.roots fs roots) (hcondition : Lexes Token.abuts [] condition us)
    (hconditions : AddsCondition us conditions) (hascii : Ascii (fs ++ us))
    (hdeclared : ∀ p ∈ conditions, ∀ x, .path x ∈ p.expressions →
      ∃ r ∈ q.roots ++ roots, r.aliasName = x.aliasName) :
    ∃ ts' p, Settled tables (addClauses text source condition) ts' p ∧
      Extends q p roots conditions ∧
      ∀ name, .parameter name ∈ ts ++ us → .parameter name ∈ ts' := by
  obtain ⟨select, k, sources, ws, groups, orders, a, b, c, pos, hp, rfl, rfl, hc, hof⟩ := h.cut
  have hwhere : ∀ w ∈ ws.head?, w.isKeyword "where" := by
    obtain ⟨rfl, -⟩ | ⟨w, vs, ps, rfl, hw, -⟩ := hp.condition.shape
    · simp
    · exact fun x hx => by cases hx; exact hw
  have hlexes := hc.addClauses separated_abuts hof hwhere hsource hcondition
  obtain ⟨new, hclause, hrestriction, hexpressions⟩ := hconditions.whereClause hp.condition
  have hstates := States.intro (hp.add hroots.listed (hroots.nodup hp.nodup) hclause)
  refine ⟨_, { q with roots := q.roots ++ roots, restriction := new },
    ⟨by simpa using hlexes, hstates, valid_add h.valid hroots.entity hexpressions hdeclared, ?_, ?_⟩,
    ⟨rfl, rfl, rfl, rfl, rfl, hrestriction⟩, ?_⟩
  · -- The addition brings the words `where` and `and` besides those of its own.
    intro s hs
    have hword : .word s ∈ select ++ k :: (sources ++ (ws ++ (groups ++ orders))) ∨
        .word s ∈ fs ++ us ∨ s = "where" ∨ s = "and" := by
      simp only [List.mem_append, List.mem_cons] at hs
      obtain hs | hs | (hs | hs) | hs | hs := hs
      · simp [hs]
      · simp [hs]
      · simp [hs]
      · obtain h | h := eq_comma_or_mem_of_mem_sourceTokens hs
        · cases h
        · simp [h]
      · obtain h | h := mem_of_mem_conditionTokens hs
        · rcases List.mem_append.1 h with h | h
          · simp [h]
          · simp [h]
        · exact .inr (.inr (by simpa using h))
      · simp [hs]
    obtain hs | hs | rfl | rfl := hword
    · exact h.ascii s hs
    · exact hascii s hs
    · simp
    · simp
  · intro r hr
    rcases List.mem_append.1 hr with hr | hr
    · exact h.entities r hr
    · exact hroots.distinct r hr
  · intro name hname
    have hcond : .parameter name ∈ ws ++ us → .parameter name ∈ conditionTokens ws us := by
      intro hmem
      refine mem_conditionTokens_of_mem ?_
      cases ws with
      | nil => exact hmem
      | cons w vs =>
        rcases List.mem_cons.1 hmem with rfl | hmem
        · cases hwhere _ rfl
        · exact hmem
    simp only [List.mem_append, List.mem_cons] at hname hcond ⊢
    tauto

end Settled

end EntityQuery.QueryText
