import EntityQuery.Proofs.Session.Text
import EntityQuery.Proofs.Splice.Settled
/-! Augmentation of texts: whatever additions are made one after the other, the text states the
query with all of them added. -/
namespace EntityQuery
open Criteria Text Evaluation QueryText

/-- What one augmentation adds to a text: a source, a condition, and values of parameters. -/
structure Addition where
  source : String
  condition : String
  parameters : Dictionary Value

def TextContext.augmentAll (c : TextContext) (s : Session) :
    List Addition → Except AugmentError TextContext
  | [] => .ok c
  | a :: rest => do
    let c ← c.augment s a.source a.condition a.parameters
    augmentAll c s rest

/-- Additions to a text whose first alias is `first`, given the sources and the parameters that
it has already: each brings at most one new source and one condition, whose paths use the aliases
declared by then, and binds parameters that are written by then. -/
inductive Additions (tables : Tables) (first : String) :
    List Root → List String → List Addition → List Root → List Predicate → Prop
  | nil {declared : List Root} {names : List String} :
    Additions tables first declared names [] [] []
  | cons {declared roots more : List Root} {names : List String} {a : Addition}
    {rest : List Addition} {fs us : List Token} {conditions others : List Predicate}
    (hsource : scan a.source.toList = .ok fs) (hroots : AddsSource tables declared fs roots)
    (hcondition : scan (TextContext.fillAlias first.toList a.condition.toList) = .ok us)
    (hconditions : AddsCondition us conditions) (hascii : Ascii (fs ++ us))
    (hunglued : Unglued a.source.toList ∧
      Unglued (TextContext.fillAlias first.toList a.condition.toList))
    (hdeclared : ∀ p ∈ conditions, ∀ x, .path x ∈ p.expressions →
      ∃ r ∈ declared ++ roots, r.aliasName = x.aliasName)
    (hnames : ∀ v ∈ a.parameters, v.1 ∈ names ++ us.filterMap Token.parameter?)
    (hrest : Additions tables first (declared ++ roots)
      (names ++ us.filterMap Token.parameter?) rest more others) :
    Additions tables first declared names (a :: rest) (roots ++ more) (conditions ++ others)

def TextContext.Holds (c : TextContext) (s : Session) (ts : List Token) (q : Query) : Prop :=
  ∃ text b, c.query.plan = .stored q (some text) q.parameters b ∧
    Settled s.store.tables text.toList ts q

section
variable {s : Session} {c : TextContext} {ts : List Token} {q : Query} {first : Root}

theorem QueryText.Settled.detectAlias? {tables : Tables} {text : List Char}
    (h : Settled tables text ts q) (hfirst : q.roots.head? = some first)
    (halias : isOneOf notAliases first.aliasName = false) :
    QueryText.detectAlias? text = some first.aliasName.toList := by
  obtain ⟨r, rest, hroots, hr⟩ := firstAlias?_of_states
    (h.lexes.mono fun _ _ => Token.abuts_of_extends) h.states h.ascii h.regular.selected
  obtain rfl : r = first := by simpa [hroots] using hfirst
  rw [QueryText.detectAlias?, hr, Option.filter_some, String.ofList_toList, halias]
  rfl

theorem TextContext.Holds.text_eq_ok (hm : s.provider = .memory) (h : c.Holds s ts q) :
    ∃ text, c.text s = .ok text ∧ Settled s.store.tables text.toList ts q := by
  obtain ⟨text, b, hplan, hsettled⟩ := h
  exact ⟨text, TextContext.text_eq_ok hm hplan, hsettled⟩

theorem TextContext.Holds.augment (hm : s.provider = .memory) (ha : s.answers = none)
    (h : c.Holds s ts q) (hfirst : q.roots.head? = some first)
    (halias : isOneOf notAliases first.aliasName = false) {source condition : String}
    {fs us : List Token} {roots : List Root} {conditions : List Predicate}
    {parameters : Dictionary Value} (hsource : Lexes Token.abuts [] source.toList fs)
    (hroots : AddsSource s.store.tables q.roots fs roots)
    (hcondition : Lexes Token.abuts [] (fillAlias first.aliasName.toList condition.toList) us)
    (hconditions : AddsCondition us conditions) (hascii : Ascii (fs ++ us))
    (hdeclared : ∀ p ∈ conditions, ∀ x, .path x ∈ p.expressions →
      ∃ r ∈ q.roots ++ roots, r.aliasName = x.aliasName)
    (hnames : ∀ v ∈ parameters, .parameter v.1 ∈ ts ++ us) :
    ∃ c' ts' p, c.augment s source condition parameters = .ok c' ∧ c'.Holds s ts' p ∧
      Extends q p roots conditions ∧ ∀ name, .parameter name ∈ ts ++ us → .parameter name ∈ ts' := by
  obtain ⟨text, htext, hsettled⟩ := h.text_eq_ok hm
  obtain ⟨ts', p, hnew, hextends, hkept⟩ :=
    hsettled.add hsource hroots hcondition hconditions hascii hdeclared
  rw [← String.toList_ofList (l := addClauses _ _ _)] at hnew
  have hscan : scan _ = .ok ts' := scan_eq_ok_iff.2 (hnew.lexes.mono fun _ _ => Token.abuts_of_extends)
  have hprepared := (Session.prepareText_eq_ok_iff ha).2
    ⟨ts', p, hscan, hnew.states, hnew.valid, rfl⟩
  obtain ⟨r, b, hbind, hplan⟩ := TextContext.bindAll_eq_ok
    (p := ⟨.stored p (some _) p.parameters [], none, []⟩) hnew.states
    (fun v hv => hkept _ (hnames v hv)) rfl
  exact ⟨{ c with query := r }, ts', p,
    TextContext.augment_eq_ok_iff.2 ⟨text, _, _, r, htext, hsettled.detectAlias? hfirst halias,
      hprepared, hbind, rfl⟩, ⟨_, b, hplan, hnew⟩, hextends, hkept⟩

/-- A whole run of augmentations succeeds, and extends the query by all the additions. -/
theorem TextContext.Holds.augmentAll (hm : s.provider = .memory) (ha : s.answers = none)
    {declared : List Root} {names : List String} {as : List Addition} {roots : List Root}
    {conditions : List Predicate} (halias : isOneOf notAliases first.aliasName = false)
    (has : Additions s.store.tables first.aliasName declared names as roots conditions)
    (h : c.Holds s ts q) (hdeclared : q.roots = declared) (hfirst : q.roots.head? = some first)
    (hnames : ∀ name ∈ names, .parameter name ∈ ts) :
    ∃ c' ts' p, c.augmentAll s as = .ok c' ∧ c'.Holds s ts' p ∧ Extends q p roots conditions := by
  induction has generalizing c ts q with
  | nil => exact ⟨c, ts, q, rfl, h, .refl q⟩
  | @cons declared roots more names a rest fs us conditions others hsource hroots hcondition
      hconditions hascii hunglued hpaths hvalues _ ih =>
    have hwritten : ∀ name ∈ names ++ us.filterMap Token.parameter?, .parameter name ∈ ts ++ us := by
      intro name hname
      rcases List.mem_append.1 hname with hname | hname
      · exact List.mem_append_left _ (hnames name hname)
      · obtain ⟨t, ht, he⟩ := List.mem_filterMap.1 hname
        cases t with
        | parameter n =>
          cases he
          exact List.mem_append_right _ ht
        | _ => cases he
    subst hdeclared
    obtain ⟨c', ts', p, hstep, hholds, hextends, hkept⟩ := h.augment hm ha hfirst halias
      (hunglued.1.lexes hsource) hroots (hunglued.2.lexes hcondition) hconditions hascii hpaths
      fun v hv => hwritten _ (hvalues v hv)
    obtain ⟨c'', ts'', r, hrun, hlast, hmore⟩ := ih hholds hextends.roots
      (by rw [hextends.roots, List.head?_append, hfirst]; rfl)
      fun name hname => hkept name (hwritten name hname)
    refine ⟨c'', ts'', r, ?_, hlast, hextends.trans hmore⟩
    rw [TextContext.augmentAll, hstep]
    exact hrun

/-- Text augmentation means what it means for criteria: every augmentation of an accepted text
succeeds, and the text at the end states the query extended by the sources and the conditions. -/
theorem augmentAll_extends (hm : s.provider = .memory) (ha : s.answers = none) {text : String}
    {prepared : PreparedQuery} (hp : s.prepareText text = .ok prepared)
    (hts : scan text.toList = .ok ts) (hq : QueryText.query ts = .ok q) (hascii : Ascii ts)
    (hunglued : Unglued text.toList) (hfirst : q.roots.head? = some first)
    (halias : isOneOf notAliases first.aliasName = false)
    (hentities : ∀ r ∈ q.roots, Distinct r)
    {as : List Addition} {roots : List Root} {conditions : List Predicate}
    (has : Additions s.store.tables first.aliasName q.roots (ts.filterMap Token.parameter?) as
      roots conditions) (mode : QueryMode) (entity : Option Entity) :
    ∃ c text' st, TextContext.augmentAll ⟨mode, prepared, entity⟩ s as = .ok c ∧
      c.text s = .ok text' ∧ Statement.ofText text'.toList = .ok st ∧
      Extends q st.query roots conditions := by
  obtain ⟨ts', q', hts', hstates, hvalid, rfl⟩ := (Session.prepareText_eq_ok_iff ha).1 hp
  obtain rfl : ts = ts' := Except.ok.inj (hts.symm.trans hts')
  obtain rfl : q = q' := Except.ok.inj (hq.symm.trans (query_eq_ok_iff.2 hstates))
  have hholds : TextContext.Holds ⟨mode, ⟨.stored q (some text) q.parameters [], none, []⟩, entity⟩
      s ts q := ⟨text, [], rfl, hunglued.lexes hts, hstates, hvalid, hascii, hentities⟩
  obtain ⟨c, us, p, hrun, hlast, hextends⟩ := hholds.augmentAll hm ha halias has rfl hfirst (by
    intro name hname
    obtain ⟨t, ht, he⟩ := List.mem_filterMap.1 hname
    cases t with
    | parameter n =>
      cases he
      exact ht
    | _ => cases he)
  obtain ⟨text', htext, hsettled⟩ := hlast.text_eq_ok hm
  refine ⟨c, text', ⟨p, p.parameters⟩, hrun, htext, ?_, hextends⟩
  have hscan : scan text'.toList = .ok us :=
    scan_eq_ok_iff.2 (hsettled.lexes.mono fun _ _ => Token.abuts_of_extends)
  exact Statement.ofText_eq_ok_iff.2 ⟨us, hscan, hsettled.states, rfl⟩

/-- Sources, conditions and a parameter are added to a text that is restricted and ordered. -/
theorem augmentAll_extends_ordered :
    ∃ prepared q c text' st,
      Session.prepareText { store := { tables := [("A", []), ("B", [])] } }
        "from A a where a.x = 'or' order by a.y" = .ok prepared ∧
      (scan "from A a where a.x = 'or' order by a.y".toList >>= QueryText.query) = .ok q ∧
      TextContext.augmentAll ⟨.find, prepared, none⟩
        { store := { tables := [("A", []), ("B", [])] } }
        [⟨"B b", "b.x = \x7balias\x7d.y and a.z = :z", [("z", .null)]⟩,
          ⟨"", "not b.y is null", []⟩] = .ok c ∧
      c.text { store := { tables := [("A", []), ("B", [])] } } = .ok text' ∧
      Statement.ofText text'.toList = .ok st ∧
      Extends q st.query [⟨"B", "b"⟩] [
        .and [.comparison .eq (.path ⟨"b", some "x"⟩) (.path ⟨"a", some "y"⟩),
          .comparison .eq (.path ⟨"a", some "z"⟩) (.parameter (parameterNamed "z"))],
        .not (.isNull (.path ⟨"b", some "y"⟩))] := by
  have hts : scan "from A a where a.x = 'or' order by a.y".toList = .ok [.word "from", .word "A",
      .word "a", .word "where", .word "a.x", .symbol (.comparison .eq), .quoted "or", .word "order",
      .word "by", .word "a.y"] := by cbv
  have hsources : Listed Source [.word "A", .word "a"] [⟨"A", "a"⟩] :=
    .one (.intro .absent (by cbv) (by cbv) (by cbv))
  have hrestriction : WhereClause
      [.word "where", .word "a.x", .symbol (.comparison .eq), .quoted "or"]
      (some (.comparison .eq (.path ⟨"a", some "x"⟩) (.literal (.string "or")))) :=
    .present (by cbv) (.one (.one (.relation (.comparison (.name (by cbv)) .eq (.quoted _)))))
  have horders : ByClause "order" Ordered [.word "order", .word "by", .word "a.y"]
      [⟨.path ⟨"a", some "y"⟩, .asc⟩] :=
    .present (by cbv) (by cbv) (.one (.plain (.intro (by cbv))))
  have hfrom : Token.isKeyword "from" (.word "from") := by cbv
  have hstates : States _ ⟨.entity, [⟨"A", "a"⟩], none,
      some (.comparison .eq (.path ⟨"a", some "x"⟩) (.literal (.string "or"))), [],
      [⟨.path ⟨"a", some "y"⟩, .asc⟩], false⟩ :=
    .intro ⟨.absent, hfrom, hsources, by simp, hrestriction, .absent, horders, rfl⟩
  have hvalid := validate_eq_ok_iff.1 (rfl : validate [("A", []), ("B", [])]
    ⟨.entity, [⟨"A", "a"⟩], none,
      some (.comparison .eq (.path ⟨"a", some "x"⟩) (.literal (.string "or"))), [],
      [⟨.path ⟨"a", some "y"⟩, .asc⟩], false⟩ = .ok ())
  have hp := (Session.prepareText_eq_ok_iff
    (s := { store := { tables := [("A", []), ("B", [])] } }) rfl).2
    ⟨_, _, hts, hstates, hvalid, rfl⟩
  -- The first addition.
  have hsource : scan "B b".toList = .ok [.word "B", .word "b"] := by cbv
  have hjoin : Conjunction [.word "b.x", .symbol (.comparison .eq), .word "a.y", .word "and",
      .word "a.z", .symbol (.comparison .eq), .parameter "z"]
      [.comparison .eq (.path ⟨"b", some "x"⟩) (.path ⟨"a", some "y"⟩),
        .comparison .eq (.path ⟨"a", some "z"⟩) (.parameter (parameterNamed "z"))] :=
    .more (.relation (.comparison (.name (by cbv)) .eq (.name (by cbv)))) (by cbv)
      (.one (.relation (.comparison (.name (by cbv)) .eq (.parameter _))))
  have hb : Source [.word "B", .word "b"] ⟨"B", "b"⟩ :=
    .intro .absent (by cbv) (by cbv) (by cbv)
  -- The second one.
  have hblank : scan "".toList = .ok [] := by cbv
  have hnull : Conjunction [.word "not", .word "b.y", .word "is", .word "null"]
      [.not (.isNull (.path ⟨"b", some "y"⟩))] :=
    .one (.not (by cbv) (.relation (.isNull (.name (by cbv)) (by cbv) (by cbv))))
  have hadditions : Additions [("A", []), ("B", [])] "a" [⟨"A", "a"⟩] []
      [⟨"B b", "b.x = \x7balias\x7d.y and a.z = :z", [("z", .null)]⟩, ⟨"", "not b.y is null", []⟩]
      ([⟨"B", "b"⟩] ++ ([] ++ [])) _ :=
    .cons hsource (.one (hb.reads []) rfl (by simp [Distinct, foldCase]) (by simp)) (by cbv)
      (.one (hjoin.reads rfl)) (by simp [Ascii]) ⟨.of_scan hsource (by simp), .of_scan (by cbv) (by simp)⟩
      (by simp [joined, Predicate.expressions, Predicate.expressionsOf]) (by simp [Token.parameter?])
      (.cons hblank .none (by cbv) (.one (hnull.reads rfl)) (by simp [Ascii])
        ⟨.of_scan hblank (by simp), .of_scan (by cbv) (by simp)⟩
        (by simp [joined, Predicate.expressions]) (by simp) .nil)
  obtain ⟨c, text', st, h⟩ := augmentAll_extends rfl rfl hp hts (query_eq_ok_iff.2 hstates)
    (by simp [Ascii]) (.of_scan hts (by simp)) rfl (by cbv) (by simp [Distinct, foldCase]) hadditions .find none
  exact ⟨_, _, c, text', st, hp, by rw [hts]; exact query_eq_ok_iff.2 hstates, h⟩

end

end EntityQuery
