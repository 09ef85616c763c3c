import EntityQuery.Proofs.Session.Text
import EntityQuery.Proofs.Splice.Misread
/-! Whether a condition that is added to a text narrows the query of the text. The old condition
joins the first conjunction of the new one only, so each further one that the new condition offers
by `or` lets combinations in that the old condition keeps out. -/
namespace EntityQuery
open Criteria Text Evaluation QueryText

section
variable {tables : Tables} {text source cond : List Char} {ts us new : List Token} {q p : Query}
  {ds : List Predicate}

/-- Whenever a query is read once a condition is added, it is the old one with its restriction in
front of the first of the new disjuncts. -/
theorem QueryText.States.addCondition (hlexes : Lexes Token.extends [] text ts) (hs : States ts q)
    (hq : Regular q) (hsource : Lexes Token.extends [] source []) (hcond : Lexes Token.extends [] cond us)
    (hd : Disjunction us ds) (hnew : scan (addClauses text source cond) = .ok new)
    (hp : QueryText.query new = .ok p) :
    ∃ qs rest, ds = joined .and qs :: rest ∧
      p = { q with restriction := some (added q.restriction qs rest) } := by
  obtain ⟨h⟩ := hs
  rename_i select sources condition groups orders k
  by_cases he : ∀ r ∈ q.roots, Distinct r
  · have hgroup : select ++ k :: (sources ++ (condition ++ (groups ++ orders))) =
        (select ++ k :: sources) ++ (condition ++ (groups ++ orders)) := by simp
    rw [hgroup] at hlexes
    obtain ⟨a, b, c, rfl, hc⟩ := hlexes.cut
    by_cases hclean : c ≠ [] → Clean (b.getLast?.or a.getLast?)
    · obtain ⟨pos, hof⟩ := h.ofText hq he hc hclean
      have hwhere : ∀ w ∈ condition.head?, w.isKeyword "where" := by
        obtain ⟨rfl, -⟩ | ⟨w, ws, ps, rfl, hw, -⟩ := h.condition.shape
        · simp
        · simpa using hw
      have hadded := hc.addClauses separated_extends hof hwhere hsource hcond
      rw [scan_eq_ok_iff.2 hadded] at hnew
      obtain rfl := Except.ok.inj hnew
      obtain ⟨qs, rest, hds, hclause⟩ := h.condition.add hd
      refine ⟨qs, rest, hds, ?_⟩
      have hnone : ([] : List Token) = [] ∧ ([] : List Root) = [] ∨ Listed Source [] [] :=
        .inl ⟨rfl, rfl⟩
      have hparts := h.add hnone (by simpa using h.nodup) hclause
      have hquery := query_eq_ok_iff.2 (States.intro hparts)
      rw [List.append_nil] at hquery
      have htokens : select ++ k :: sources ++ (sourceTokens [] ++ (conditionTokens condition us ++
          (groups ++ orders))) = select ++ k :: (sources ++ sourceTokens [] ++
            (conditionTokens condition us ++ (groups ++ orders))) := by simp
      rw [htokens, hquery] at hp
      exact (Except.ok.inj hp).symm
    · obtain ⟨hne, hglued⟩ := Classical.not_imp.1 hclean
      exact (h.glued_refused hq he hc hne hglued hsource hcond hd hnew p hp).elim
  · exact (h.misread_refused hq he hlexes hsource hcond hd hnew p hp).elim

end

section
variable {s : Session} {text source condition : String} {prepared : PreparedQuery}
  {ts us : List Token} {q : Query} {a : List Char} {d : Predicate} {ds : List Predicate}
  {mode : QueryMode} {entity : Option Entity} {parameters : Dictionary Value} {c : TextContext}

theorem TextContext.augment_restriction (hm : s.provider = .memory) (ha : s.answers = none)
    (hp : s.prepareText text = .ok prepared) (hts : scan text.toList = .ok ts)
    (hq : QueryText.query ts = .ok q) (halias : detectAlias? text.toList = some a)
    (hsource : scan source.toList = .ok []) (hus : scan (fillAlias a condition.toList) = .ok us)
    (hds : (disjuncts us).Reads ds [])
    (hc : augment ⟨mode, prepared, entity⟩ s source condition parameters = .ok c) :
    ∃ text' st qs rest, c.text s = .ok text' ∧ Statement.ofText text'.toList = .ok st ∧
      ds = joined .and qs :: rest ∧
      st.query = { q with restriction := some (added q.restriction qs rest) } := by
  obtain ⟨ts', q', hts', hstates, hvalid, rfl⟩ := (Session.prepareText_eq_ok_iff ha).1 hp
  obtain rfl : ts = ts' := Except.ok.inj (hts.symm.trans hts')
  obtain rfl : q = q' := Except.ok.inj (hq.symm.trans (query_eq_ok_iff.2 hstates))
  obtain ⟨text', a', p, r, htext, halias', hp', hr, rfl⟩ := augment_eq_ok_iff.1 hc
  obtain rfl : text = text' := Except.ok.inj ((text_eq_ok hm rfl).symm.trans htext)
  obtain rfl : a = a' := Option.some.inj (halias.symm.trans halias')
  obtain ⟨new, q', hnew, hstates', -, rfl⟩ := (Session.prepareText_eq_ok_iff ha).1 hp'
  obtain ⟨b, hplan⟩ := bindAll_plan hr rfl
  rw [String.toList_ofList] at hnew
  obtain ⟨qs, rest, hds', hq'⟩ := hstates.addCondition (scan_eq_ok_iff.1 hts)
    (hstates.regular hvalid) (scan_eq_ok_iff.1 hsource) (scan_eq_ok_iff.1 hus) (.of_reads hds) hnew
    (query_eq_ok_iff.2 hstates')
  refine ⟨_, ⟨q', q'.parameters⟩, qs, rest, text_eq_ok hm hplan, ?_, hds', hq'⟩
  rw [String.toList_ofList]
  exact Statement.ofText_eq_ok_iff.2 ⟨new, hnew, hstates', rfl⟩

/-- A condition that is added narrows a query exactly on the combinations where the old condition
holds or no disjunct of the new one does but the first: an addition without `or` outside
parentheses always narrows. -/
theorem augment_narrows_iff (hm : s.provider = .memory) (ha : s.answers = none)
    (hp : s.prepareText text = .ok prepared) (hts : scan text.toList = .ok ts)
    (hq : QueryText.query ts = .ok q) (halias : detectAlias? text.toList = some a)
    (hsource : scan source.toList = .ok [])
    (hus : scan (TextContext.fillAlias a condition.toList) = .ok us)
    (hds : (disjuncts us).Reads (d :: ds) [])
    (hc : TextContext.augment ⟨mode, prepared, entity⟩ s source condition parameters = .ok c) :
    ∃ text' st, c.text s = .ok text' ∧ Statement.ofText text'.toList = .ok st ∧
      ∀ b rows, (satisfiesAll b rows st.query.restriction.toList = .ok true →
          satisfiesAll b rows q.restriction.toList = .ok true) ↔
        ∀ p ∈ q.restriction, satisfies b rows p = .ok false →
          satisfiesAny b rows ds ≠ .ok true := by
  obtain ⟨text', st, qs, rest, htext, hst, hds', hrestriction⟩ :=
    TextContext.augment_restriction hm ha hp hts hq halias hsource hus hds hc
  obtain ⟨rfl, rfl⟩ := List.cons.inj hds'
  refine ⟨text', st, htext, hst, fun b rows => ?_⟩
  rw [hrestriction, Option.toList_some, satisfiesAll_singleton, satisfies_added]
  cases q.restriction with
  | none => simp [satisfiesAll]
  | some p =>
    simp only [Option.toList_some, satisfiesAll_singleton, Option.mem_some_iff, forall_eq']
    cases satisfies b rows p with
    | error e => simp [Except.bind]
    | ok x => cases x <;> simp [Except.bind]

theorem QueryText.Negation.number {a : String} (h : isReserved a = false) (n : Number) :
    Negation [.word a, .symbol (.comparison .eq), .number n]
      (.comparison .eq (.path (pathOf a)) (.literal (.number n))) :=
  .relation (.comparison (.name h) .eq (.number n))

theorem augment_or :
    scan "from A a where a.x = 1".toList = .ok [.word "from", .word "A", .word "a", .word "where",
      .word "a.x", .symbol (.comparison .eq), .number (.integer 1)] ∧
    QueryText.query [.word "from", .word "A", .word "a", .word "where", .word "a.x",
      .symbol (.comparison .eq), .number (.integer 1)] = .ok ⟨.entity, [⟨"A", "a"⟩], none,
        some (.comparison .eq (.path ⟨"a", some "x"⟩) (.literal (.integer 1))), [], [], false⟩ ∧
    detectAlias? "from A a where a.x = 1".toList = some ['a'] ∧
    scan (TextContext.fillAlias ['a'] "a.y = 1 or a.z = 1".toList) = .ok [.word "a.y",
      .symbol (.comparison .eq), .number (.integer 1), .word "or", .word "a.z",
      .symbol (.comparison .eq), .number (.integer 1)] ∧
    (disjuncts [.word "a.y", .symbol (.comparison .eq), .number (.integer 1), .word "or",
      .word "a.z", .symbol (.comparison .eq), .number (.integer 1)]).Reads
        [.comparison .eq (.path ⟨"a", some "y"⟩) (.literal (.integer 1)),
          .comparison .eq (.path ⟨"a", some "z"⟩) (.literal (.integer 1))] [] ∧
    ∃ prepared c, Session.prepareText { store := { tables := [("A", [])] } }
        "from A a where a.x = 1" = .ok prepared ∧
      TextContext.augment ⟨.find, prepared, none⟩ { store := { tables := [("A", [])] } } ""
        "a.y = 1 or a.z = 1" [] = .ok c := by
  have hts : scan "from A a where a.x = 1".toList = .ok [.word "from", .word "A", .word "a",
      .word "where", .word "a.x", .symbol (.comparison .eq), .number (.integer 1)] := by cbv
  have hus : scan (TextContext.fillAlias ['a'] "a.y = 1 or a.z = 1".toList) = .ok [.word "a.y",
      .symbol (.comparison .eq), .number (.integer 1), .word "or", .word "a.z",
      .symbol (.comparison .eq), .number (.integer 1)] := by cbv
  have halias : detectAlias? "from A a where a.x = 1".toList = some ['a'] := by decide +kernel
  have hadd : addClauses "from A a where a.x = 1".toList "".toList
      (TextContext.fillAlias ['a'] "a.y = 1 or a.z = 1".toList) =
      "from A a where (a.x = 1) and a.y = 1 or a.z = 1".toList := by decide +kernel
  have hnew : scan "from A a where (a.x = 1) and a.y = 1 or a.z = 1".toList = .ok [.word "from",
      .word "A", .word "a", .word "where", .symbol .opening, .word "a.x",
      .symbol (.comparison .eq), .number (.integer 1), .symbol .closing, .word "and", .word "a.y",
      .symbol (.comparison .eq), .number (.integer 1), .word "or", .word "a.z",
      .symbol (.comparison .eq), .number (.integer 1)] := by cbv
  have hfrom : Token.isKeyword "from" (.word "from") := by cbv
  have hor : Token.isKeyword "or" (.word "or") := by cbv
  have hsources : Listed Source [.word "A", .word "a"] [⟨"A", "a"⟩] :=
    .one (.intro .absent (by cbv) (by cbv) (by cbv))
  have hx : Negation [.word "a.x", .symbol (.comparison .eq), .number (.integer 1)] _ :=
    .number (by cbv) (.integer 1)
  have hy : Negation [.word "a.y", .symbol (.comparison .eq), .number (.integer 1)] _ :=
    .number (by cbv) (.integer 1)
  have hz : Negation [.word "a.z", .symbol (.comparison .eq), .number (.integer 1)] _ :=
    .number (by cbv) (.integer 1)
  have hstates : States _ ⟨_, _, _, _, _, _, _⟩ :=
    .intro ⟨.absent, hfrom, hsources, by simp, .present (isKeyword_reserved (by decide)) (.one (.one hx)), .absent,
      .absent, rfl⟩
  have hstates' : States _ ⟨_, _, _, _, _, _, _⟩ :=
    .intro ⟨.absent, hfrom, hsources, by simp, .present (isKeyword_reserved (by decide))
      (.more (.more (.group (.one (.one hx))) (isKeyword_reserved (by decide)) (.one hy)) hor (.one (.one hz))),
      .absent, .absent, rfl⟩
  refine ⟨hts, query_eq_ok_iff.2 hstates, halias, hus,
    (Disjunction.more (.one hy) hor (.one (.one hz))).reads rfl rfl, ?_⟩
  have hprepare := (Session.prepareText_eq_ok_iff
    (s := { store := { tables := [("A", [])] } }) rfl).2
    ⟨_, _, hts, hstates, validate_eq_ok_iff.1 rfl, rfl⟩
  rw [← String.toList_ofList (l := "from A a where (a.x = 1) and a.y = 1 or a.z = 1".toList)] at hnew
  have hprepare' := (Session.prepareText_eq_ok_iff
    (s := { store := { tables := [("A", [])] } }) rfl).2
    ⟨_, _, hnew, hstates', validate_eq_ok_iff.1 rfl, rfl⟩
  exact ⟨_, _, hprepare, TextContext.augment_eq_ok_iff.2 ⟨_, _, _, _, TextContext.text_eq_ok rfl rfl,
    halias, by rw [hadd]; exact hprepare', rfl, rfl⟩⟩

/-- A condition with `or`, added to a text that has one. -/
theorem augment_narrows_iff_or :
    ∃ prepared c text' st,
      Session.prepareText { store := { tables := [("A", [])] } } "from A a where a.x = 1" =
        .ok prepared ∧
      TextContext.augment ⟨.find, prepared, none⟩ { store := { tables := [("A", [])] } } ""
        "a.y = 1 or a.z = 1" [] = .ok c ∧
      c.text { store := { tables := [("A", [])] } } = .ok text' ∧
      Statement.ofText text'.toList = .ok st ∧
      ∀ b rows, (satisfiesAll b rows st.query.restriction.toList = .ok true →
          satisfiesAll b rows
            [.comparison .eq (.path ⟨"a", some "x"⟩) (.literal (.integer 1))] = .ok true) ↔
        (satisfies b rows (.comparison .eq (.path ⟨"a", some "x"⟩) (.literal (.integer 1))) =
            .ok false →
          satisfiesAny b rows [.comparison .eq (.path ⟨"a", some "z"⟩) (.literal (.integer 1))] ≠
            .ok true) := by
  obtain ⟨hts, hq, halias, hus, hds, prepared, c, hp, hc⟩ := augment_or
  have hblank : scan "".toList = .ok [] := by cbv
  obtain ⟨text', st, htext, hst, h⟩ :=
    augment_narrows_iff rfl rfl hp hts hq halias hblank hus hds hc
  refine ⟨prepared, c, text', st, hp, hc, htext, hst, fun b rows => ?_⟩
  have hiff := h b rows
  simp only [Option.mem_some_iff, forall_eq'] at hiff
  exact hiff

/-- An added condition lets a row in that the text keeps out. -/
theorem augment_widens :
    ∃ prepared q c text' st,
      Session.prepareText { store := { tables := [("A", [])] } } "from A a where a.x = 1" =
        .ok prepared ∧
      (scan "from A a where a.x = 1".toList >>= QueryText.query) = .ok q ∧
      TextContext.augment ⟨.find, prepared, none⟩ { store := { tables := [("A", [])] } } ""
        "a.y = 1 or a.z = 1" [] = .ok c ∧
      c.text { store := { tables := [("A", [])] } } = .ok text' ∧
      Statement.ofText text'.toList = .ok st ∧
      satisfiesAll [] [(⟨"A", "a"⟩, .object [("x", .integer 2), ("z", .integer 1)])]
        st.query.restriction.toList = .ok true ∧
      satisfiesAll [] [(⟨"A", "a"⟩, .object [("x", .integer 2), ("z", .integer 1)])]
        q.restriction.toList = .ok false := by
  obtain ⟨hts, hq, halias, hus, hds, prepared, c, hp, hc⟩ := augment_or
  have hblank : scan "".toList = .ok [] := by cbv
  obtain ⟨text', st, qs, rest, htext, hst, hds', hrestriction⟩ :=
    TextContext.augment_restriction rfl rfl hp hts hq halias hblank hus hds hc
  obtain ⟨hd, rfl⟩ := List.cons.inj hds'
  refine ⟨prepared, _, c, text', st, hp, by rw [hts]; exact hq, hc, htext, hst, ?_, by rfl⟩
  rw [hrestriction, Option.toList_some, satisfiesAll_singleton, satisfies_added]
  rfl

end

end EntityQuery
