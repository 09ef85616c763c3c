import EntityQuery.Proofs.Grammar.Statement
/-! Tokens that no query is read from: a condition in the place of an alias, or a clause inside the
parentheses of a condition. -/
namespace EntityQuery.QueryText
open Criteria

/-- Tokens that stand behind the entity of no source: they start with no alias, or with one that
nothing of a statement follows. -/
inductive Misplaced : List Token → Prop
  | unnamed {ts : List Token}
    (h : ∀ s us, ts = .word s :: us → isReserved s = true ∧ Text.foldCase s ≠ "as") : Misplaced ts
  | unfollowed {s : String} {t : Token} {ts : List Token} (hr : isReserved s = false)
    (hcomma : t ≠ .symbol .comma) (hk : ∀ w ∈ ["where", "group", "order"], t.isKeyword w = false) :
    Misplaced (.word s :: t :: ts)

section
variable {ts us vs select sources : List Token} {k e t : Token} {r : Root} {roots : List Root}

theorem Misplaced.of_head (h : ∀ s, t ≠ .word s) : Misplaced (t :: ts) := by
  refine .unnamed fun s us he => ?_
  exact (h s (List.cons.inj he).1).elim

theorem Misplaced.of_foldCase {s w : String} (h : Text.foldCase s = w) (hw : w ∈ reserved)
    (hne : w ≠ "as") : Misplaced (.word s :: ts) := by
  refine .unnamed fun s' us he => ?_
  obtain ⟨hs, -⟩ := List.cons.inj he
  cases hs
  subst h
  exact ⟨by simpa [isReserved, Text.isOneOf] using hw, hne⟩

theorem Misplaced.of_isKeyword {w : String} (h : t.isKeyword w) (hw : w ∈ reserved) (hne : w ≠ "as") :
    Misplaced (t :: ts) := by
  obtain ⟨s, rfl, hfold⟩ := Token.isKeyword_iff.1 h
  exact .of_foldCase hfold hw hne

theorem Operand.misplaced {l : Token} {left : Expression} (h : Operand l left)
    (hcomma : t ≠ .symbol .comma) (hk : ∀ w ∈ ["where", "group", "order"], t.isKeyword w = false) :
    Misplaced (l :: t :: ts) := by
  cases h with
  | number | quoted | parameter => exact .of_head (by simp)
  | trueWord h | falseWord h | nullWord h => exact .of_foldCase h (by decide) (by decide)
  | name h => exact .unfollowed h hcomma hk

theorem Token.isKeyword_eq_false {w v : String} (h : t.isKeyword w) (hne : w ≠ v) :
    t.isKeyword v = false := by
  obtain ⟨s, rfl, rfl⟩ := Token.isKeyword_iff.1 h
  simp [Token.isKeyword, hne]

theorem Token.not_clause_of_isKeyword {w : String} (h : t.isKeyword w)
    (hw : w ∈ ["is", "not", "like"]) :
    t ≠ .symbol .comma ∧ ∀ v ∈ ["where", "group", "order"], t.isKeyword v = false := by
  refine ⟨?_, fun v hv => Token.isKeyword_eq_false h ?_⟩
  · rintro rfl
    cases h
  · rintro rfl
    simp only [List.mem_cons, List.not_mem_nil, or_false] at hw hv
    obtain rfl | rfl | rfl := hw <;> simp at hv

theorem Relation.misplaced {p : Predicate} (h : Relation ts p) (us : List Token) :
    Misplaced (ts ++ us) := by
  cases h with
  | comparison hl op hr => exact hl.misplaced (by simp) (by simp [Token.isKeyword])
  | like hl hk hr =>
    obtain ⟨hc, hw⟩ := Token.not_clause_of_isKeyword hk (by simp)
    exact hl.misplaced hc hw
  | notLike hl hn | isNull hl hn | isNotNull hl hn =>
    obtain ⟨hc, hw⟩ := Token.not_clause_of_isKeyword hn (by simp)
    exact hl.misplaced hc hw

theorem Negation.misplaced {p : Predicate} (h : Negation ts p) (us : List Token) :
    Misplaced (ts ++ us) := by
  cases h with
  | not hk h => exact .of_isKeyword hk (by decide) (by decide)
  | group h => exact .of_head (by simp)
  | relation h => exact h.misplaced us

/-- No condition stands behind the entity of a source. -/
theorem Disjunction.misplaced {ps : List Predicate} (h : Disjunction ts ps) (us : List Token) :
    Misplaced (ts ++ us) := by
  have hconj : ∀ {ts ps}, Conjunction ts ps → ∀ us, Misplaced (ts ++ us) := by
    intro ts ps h us
    cases h with
    | one h => exact h.misplaced us
    | more h hk hs =>
      rw [List.append_assoc]
      exact h.misplaced _
  cases h with
  | one h => exact hconj h us
  | more h hk hs =>
    rw [List.append_assoc]
    exact hconj h _

theorem Listed.leaves {α : Type} {item : List Token → α → Prop}
    (rule : (ts : List Token) → Rule α ts)
    (hitem : ∀ ts a rest, item ts a →
      (rule (ts ++ .symbol .comma :: rest)).Reads a (.symbol .comma :: rest))
    {as : List α} (h : Listed item us as) {rest : List Token}
    (hr : ∃ v, (commaList rule (us ++ .symbol .comma :: ts)).Reads v rest) :
    ∃ v, (commaList rule ts).Reads v rest := by
  have hstep : ∀ {us a ts}, item us a →
      (∃ v, (commaList rule (us ++ .symbol .comma :: ts)).Reads v rest) →
        ∃ v, (commaList rule ts).Reads v rest := by
    rintro us a ts h ⟨v, hlt, hr⟩
    rw [commaList] at hr
    obtain ⟨hlt', hread⟩ := hitem _ _ ts h
    rw [hread, ok_bind] at hr
    simp only [symbolAt?, if_true] at hr
    obtain ⟨others, ho, hr⟩ := bind_eq_ok_iff.1 hr
    cases hr
    exact ⟨_, .of_ok ho⟩
  induction h with
  | one h => exact hstep h hr
  | more h hs ih =>
    rw [List.append_assoc, List.cons_append] at hr
    exact ih (hstep h hr)

variable {distinct : Bool} {selection : Option Selection}

theorem clauses_of_query_eq_ok {q : Query} (hs : SelectClause select distinct selection)
    (hk : k.isKeyword "from") (h : query (select ++ k :: ts) = .ok q) :
    ∃ roots rest, (commaList source ts).Reads roots rest ∧
      ∃ p ps, whereClause rest = .ok (p, ps) ∧
        ∃ es qs, groupClause ps = .ok (es, qs) ∧ ∃ os, orderClause qs = .ok (os, []) := by
  unfold query at h
  rw [hs.reads (keyword?_of_other hk (by decide)), ok_bind] at h
  dsimp only at h
  rw [keyword_of_isKeyword hk, ok_bind] at h
  obtain ⟨sources, hr, h⟩ := bind_eq_ok_iff.1 h
  dsimp only at h
  split at h
  · cases h
  obtain ⟨⟨p, ps⟩, hw, h⟩ := bind_eq_ok_iff.1 h
  obtain ⟨⟨es, qs⟩, hg, h⟩ := bind_eq_ok_iff.1 h
  obtain ⟨⟨os, rest⟩, ho, h⟩ := bind_eq_ok_iff.1 h
  dsimp only at h
  split at h
  · cases h
  rename_i hend
  have hnil : rest = [] := by
    cases rest with
    | nil => rfl
    | cons t us => exact (hend t us rfl).elim
  rw [hnil] at ho
  exact ⟨_, _, .of_ok hr, p, ps, hw, es, qs, hg, os, ho⟩

theorem Misplaced.behind_alias (h : Misplaced ts) {as rest : List Token} {flag : Bool} {a : String}
    (has : Optional "as" as flag) (hr : isReserved a = false) (hts : ts = as ++ .word a :: rest) :
    ∃ t us, rest = t :: us ∧ t ≠ .symbol .comma ∧
      ∀ w ∈ ["where", "group", "order"], t.isKeyword w = false := by
  cases h with
  | unnamed h =>
    cases has with
    | absent =>
      obtain ⟨hreserved, -⟩ := h _ _ hts
      rw [hr] at hreserved
      cases hreserved
    | @present t has =>
      obtain ⟨s, rfl, hfold⟩ := Token.isKeyword_iff.1 has
      obtain ⟨-, hne⟩ := h _ _ hts
      exact (hne hfold).elim
  | @unfollowed s t us hs hcomma hk =>
    cases has with
    | absent =>
      obtain ⟨-, hrest⟩ := List.cons.inj hts
      exact ⟨t, us, hrest.symm, hcomma, hk⟩
    | @present k has =>
      obtain ⟨rfl, -⟩ := List.cons.inj hts
      have := isReserved_of_isKeyword has (by decide)
      rw [hs] at this
      cases this

/-- No query has a condition right behind the entity of a source. -/
theorem query_misplaced (hs : SelectClause select distinct selection) (hk : k.isKeyword "from")
    (hus : us = [] ∨ ∃ vs roots, us = vs ++ [.symbol .comma] ∧ Listed Source vs roots)
    (entity : String) (h : Misplaced ts) (q : Query) :
    query (select ++ k :: (us ++ .word entity :: ts)) ≠ .ok q := by
  intro hq
  obtain ⟨roots, rest, hr, p, ps, hw, es, qs, hg, os, ho⟩ := clauses_of_query_eq_ok hs hk hq
  have hlast : ∃ v, (commaList source (.word entity :: ts)).Reads v rest := by
    obtain rfl | ⟨vs, rs, rfl, hvs⟩ := hus
    · exact ⟨roots, hr⟩
    · rw [List.append_assoc, List.singleton_append] at hr
      exact hvs.leaves source (fun _ _ rest h => h.reads _) ⟨roots, hr⟩
  obtain ⟨v, hlt, hlast⟩ := hlast
  rw [commaList] at hlast
  obtain ⟨first, hf, hlast⟩ := bind_eq_ok_iff.1 hlast
  obtain ⟨vs, hvs, hsource⟩ := source_eq_ok hf
  generalize first.value = r at hsource hlast
  obtain ⟨has, hreserved, -, -⟩ := hsource
  rw [List.cons_append, List.append_assoc, List.singleton_append] at hvs
  obtain ⟨-, hts⟩ := List.cons.inj hvs
  obtain ⟨t, us', hrest, hcomma, hkeyword⟩ := h.behind_alias has hreserved hts
  have hnone : ∀ w ∈ ["where", "group", "order"], keyword? w first.rest = none := by
    intro w hw
    rw [hrest]
    simp [keyword?, hkeyword w hw]
  have hnocomma : symbolAt? .comma first.rest = none := by
    rw [hrest]
    exact if_neg hcomma
  rw [hnocomma] at hlast
  cases hlast
  simp only [whereClause, hnone "where" (by simp)] at hw
  cases hw
  simp only [groupClause, hnone "group" (by simp)] at hg
  cases hg
  simp only [orderClause, hnone "order" (by simp)] at ho
  rw [hrest] at ho
  cases ho

theorem whereClause_unclosed {w g : Token} {ws gs : List Token} {ps : List Predicate} {word : String}
    (hw : w.isKeyword "where") (hd : Disjunction ws ps) (hg : g.isKeyword word)
    (hword : word = "group" ∨ word = "order") (r : Option Predicate × List Token) :
    whereClause (w :: .symbol .opening :: (ws ++ g :: gs)) ≠ .ok r := by
  intro h
  have hneg : ∀ x, negation (.symbol .opening :: (ws ++ g :: gs)) ≠ .ok x := by
    intro x hx
    have hne : word ≠ "and" ∧ word ≠ "or" := by
      obtain rfl | rfl := hword <;> decide
    obtain ⟨hlt, hread⟩ := hd.reads (keyword?_of_other hg hne.1) (keyword?_of_other hg hne.2)
    rw [negation] at hx
    simp only [keyword?, Token.isKeyword, symbolAt?, if_true, Bool.false_eq_true, if_false] at hx
    obtain ⟨inner, hi, hx⟩ := bind_eq_ok_iff.1 hx
    obtain ⟨close, hc, -⟩ := bind_eq_ok_iff.1 hx
    rw [hread] at hi
    cases hi
    have := closing_eq_ok hc
    obtain ⟨rfl, -⟩ := List.cons.inj this
    cases hg
  unfold whereClause at h
  rw [keyword?_of_isKeyword hw] at h
  obtain ⟨x, hx, -⟩ := bind_eq_ok_iff.1 h
  obtain ⟨y, hy, -⟩ := map_eq_ok_iff.1 hx
  rw [disjuncts] at hy
  obtain ⟨z, hz, -⟩ := bind_eq_ok_iff.1 hy
  rw [conjuncts] at hz
  obtain ⟨n, hn, -⟩ := bind_eq_ok_iff.1 hz
  exact hneg n hn

theorem whereClause_of_query_eq_ok {w : Token} {q : Query}
    (hs : SelectClause select distinct selection) (hk : k.isKeyword "from")
    (hr : Listed Source sources roots) (hw : w.isKeyword "where")
    (h : query (select ++ k :: (sources ++ w :: ts)) = .ok q) :
    ∃ p ps, whereClause (w :: ts) = .ok (p, ps) ∧
      ∃ es qs, groupClause ps = .ok (es, qs) ∧ ∃ os, orderClause qs = .ok (os, []) := by
  obtain ⟨roots', rest, ⟨hlt, hr'⟩, hclauses⟩ := clauses_of_query_eq_ok hs hk h
  have hcomma : symbolAt? .comma (w :: ts) = none := by
    refine if_neg ?_
    rintro rfl
    cases hw
  obtain ⟨hlt', hread⟩ := hr.reads source (fun _ => True) (fun _ _ rest h _ => h.reads rest)
    (fun _ => trivial) trivial hcomma
  rw [hread] at hr'
  cases hr'
  exact hclauses

/-- No query has a clause inside the parentheses of a condition. -/
theorem query_unclosed (hs : SelectClause select distinct selection)
    (hk : k.isKeyword "from") (hr : Listed Source sources roots) {w g : Token} {ws gs : List Token}
    {ps : List Predicate} {word : String} (hw : w.isKeyword "where") (hd : Disjunction ws ps)
    (hg : g.isKeyword word) (hword : word = "group" ∨ word = "order") (q : Query) :
    query (select ++ k :: (sources ++ w :: .symbol .opening :: (ws ++ g :: gs))) ≠ .ok q := by
  intro hq
  obtain ⟨p, ps', hwhere, -⟩ := whereClause_of_query_eq_ok hs hk hr hw hq
  exact whereClause_unclosed hw hd hg hword _ hwhere

/-- No query has a word that is not reserved right behind its condition. -/
theorem query_interrupted (hs : SelectClause select distinct selection)
    (hk : k.isKeyword "from") (hr : Listed Source sources roots) {w : Token} {ws rest : List Token}
    {ps : List Predicate} (hw : w.isKeyword "where") (hd : Disjunction ws ps) {s : String}
    (hword : isReserved s = false) (q : Query) :
    query (select ++ k :: (sources ++ w :: (ws ++ .word s :: rest))) ≠ .ok q := by
  intro hq
  obtain ⟨p, ps', hwhere, es, qs, hg, os, ho⟩ := whereClause_of_query_eq_ok hs hk hr hw hq
  have hnone : ∀ word ∈ reserved, keyword? word (.word s :: rest) = none := fun word hw =>
    keyword?_word_of_isReserved hword hw
  obtain ⟨hlt, hcondition⟩ := (hd.reads (hnone "and" (by decide)) (hnone "or" (by decide))).map
    (joined .or)
  simp only [whereClause, keyword?_of_isKeyword hw, condition, hcondition, ok_bind,
    pure_eq_ok] at hwhere
  cases hwhere
  simp only [groupClause, hnone "group" (by decide)] at hg
  cases hg
  simp only [orderClause, hnone "order" (by decide)] at ho
  cases ho

end

end EntityQuery.QueryText
