import EntityQuery.Proofs.Evaluation.Filter
import EntityQuery.Proofs.Executor.Counting
/-! Augmentors that filter. Each joins one condition about the root to all queries of an entity;
together they leave the rows that all of their conditions admit, in whatever order they come. -/
namespace EntityQuery
open Criteria Evaluation

/-- The augmentor joins a condition about the root to all queries of the entity, whatever they are
run for. -/
structure Augmentor.Filters (a : Augmentor) (entity : Entity) (root : Root) (p : Predicate) :
    Prop where
  supports : ∀ mode, a.supports .criteria mode entity = true
  conjoins : ∀ c : CriteriaContext, c.entity = entity → c.root = some root →
    a.onCriteria c = .ok { c with query := c.query.restrictAlso p }
  about : p.About root

theorem Augmentor.filters_rewriting {entity : Entity} {root : Root} {p : Predicate} (name : String)
    {f : Option Root → List Root → Predicate} (hf : ∀ roots, f (some root) roots = p)
    (hp : p.About root) : (rewriting name [.restrictAlso f]).Filters entity root p := by
  refine ⟨fun _ => rfl, fun c _ hroot => ?_, hp⟩
  show Except.ok { c with query := c.query.restrictAlso (f c.root c.query.roots) } = _
  rw [hroot, hf]

theorem Augmentation.thread_filters {as : List Augmentor} {entity : Entity} {root : Root}
    {condition : Augmentor → Predicate} (h : ∀ a ∈ as, a.Filters entity root (condition a))
    {c : CriteriaContext} (hentity : c.entity = entity) (hroot : c.root = some root) :
    (thread c (as.map fun a => (a.name, a.onCriteria))).outcome =
      .ok { c with query := restrictAll c.query (as.map condition) } := by
  induction as generalizing c with
  | nil => rfl
  | cons a rest ih =>
    rw [List.map_cons, thread, (h a (.head _)).conjoins c hentity hroot]
    exact ih (fun b hb => h b (.tail _ hb)) hentity hroot

namespace Executor

def root (x : Executor) : Root := (Query.addRoot { result := .entity } x.entity.type).2

def withAugmentors (x : Executor) (augmentors : List Augmentor) : Executor := { x with augmentors }

def admitted (x : Executor) (condition : Augmentor → Predicate) (v : Value) : Bool :=
  x.augmentors.all fun a => admits x.root (condition a) v

/-- The query for rows as it is without augmentors. -/
def plain (x : Executor) (spec : Option Specification) : Query :=
  selected none (x.contextOf .entity spec .find).query x.root

section
variable {x : Executor} {spec : Option Specification} {condition : Augmentor → Predicate}
  {o : ObservedSession} {tables : Tables}

/-- Filters leave of a query that it is restricted further. -/
theorem built_filtered (henabled : x.config.augmentationEnabled = true)
    (h : ∀ a ∈ x.augmentors, a.Filters x.entity x.root (condition a)) (result : ResultKind)
    (spec : Option Specification) (mode : QueryMode) : x.built result spec mode =
      .ok (restrictAll (x.contextOf result spec mode).query (x.augmentors.map condition), x.root) := by
  have hsupporting : Augmentation.supporting x.augmentors .criteria mode x.entity = x.augmentors :=
    List.filter_eq_self.2 fun a ha => (h a ha).supports mode
  have haugmented := Augmentation.thread_filters (c := x.contextOf result spec mode) h rfl rfl
  unfold built augmented Augmentation.onCriteria
  rw [if_pos henabled, show Augmentation.supporting x.augmentors .criteria
    (x.contextOf result spec mode).mode (x.contextOf result spec mode).entity = _ from hsupporting,
    haugmented]
  rfl

theorem selected_restrictAll (q : Query) (ps : List Predicate) (r : Root) :
    selected none (restrictAll q ps) r = restrictAll (selected none q r) ps := by
  induction ps generalizing q with
  | nil => rfl
  | cons p ps ih => exact ih (q.restrictAlso p)

theorem found_of_failure {α : Type} {reason : String} (x : Executor) (hs : o.session.answers = none)
    (hf : o.session.store.failure = some reason) (decode : Decode α)
    (spec : Option Specification) (sorting : Option Sorting) :
    ∃ e, (x.found decode spec sorting).outcome o = .error e := by
  obtain ⟨hquery, hsession⟩ := x.gives_query spec o.session sorting o rfl
  cases hq : (x.query spec sorting).outcome o with
  | error e => exact ⟨e, (Run.bind_of_error hq).1⟩
  | ok p =>
    refine ⟨.session (.injected reason), ?_⟩
    rw [found, (Run.bind_of_ok hq).1]
    rw [hq] at hquery
    obtain ⟨b, -, hprepared⟩ := bind_eq_ok_iff.1 hquery.symm
    have hplan := prepared_eq_ok hs hprepared
    have hrows : (Run.rows p).outcome ((x.query spec sorting).after o) =
        .error (.session (.injected reason)) := by
      rw [Run.outcome_rows, hsession, PreparedQuery.rows, hplan, hf]
      rfl
    exact (Run.bind_of_error hrows).1

theorem execute_filtered (h : ∀ a ∈ x.augmentors, a.Filters x.entity x.root (condition a))
    (hfits : ∀ a ∈ x.augmentors, Fits tables x.root (condition a))
    (hsort : ∀ cs, matched tables (x.plain spec) [] = .ok cs →
      Sortable [] (x.plain spec).orders cs) (ws : List Value) :
    execute tables (restrictAll (x.plain spec) (x.augmentors.map condition)) [] = .ok ws ↔
      ∃ vs, execute tables (x.plain spec) [] = .ok vs ∧ vs.filter (x.admitted condition) = ws := by
  have hadmitted : x.admitted condition =
      fun v => (x.augmentors.map condition).all (admits x.root · v) := by
    funext v
    rw [List.all_map]
    rfl
  rw [hadmitted]
  refine execute_restrictAll rfl (fun p hp => ?_) hsort ws
  obtain ⟨a, ha, rfl⟩ := List.mem_map.1 hp
  exact ⟨(h a ha).about, hfits a ha⟩

theorem gives_found_filtered {α : Type} (hs : o.session.answers = none)
    (hf : o.session.store.failure = none) (henabled : x.config.augmentationEnabled = true)
    (h : ∀ a ∈ x.augmentors, a.Filters x.entity x.root (condition a)) (spec : Option Specification)
    (decode : Decode α) : (x.found decode spec none).outcome o =
      (execute o.session.store.tables (restrictAll (x.plain spec) (x.augmentors.map condition)) [] >>=
        Decode.rows decode).mapError .session := by
  rw [(x.gives_found spec hs hf decode none o rfl).1, built_filtered henabled h, ok_bind,
    selected_restrictAll]
  rfl

theorem found_without (hs : o.session.answers = none) (hf : o.session.store.failure = none)
    (henabled : x.config.augmentationEnabled = true) (spec : Option Specification) :
    ((x.withAugmentors []).found Decode.value spec none).outcome o =
      (execute o.session.store.tables (x.plain spec) []).mapError .session := by
  have hnone : ∀ a ∈ (x.withAugmentors []).augmentors, a.Filters x.entity x.root .always :=
    fun a ha => by cases ha
  rw [gives_found_filtered (x := x.withAugmentors []) hs hf henabled hnone]
  show (execute o.session.store.tables (x.plain spec) [] >>= _).mapError _ = _
  cases execute o.session.store.tables (x.plain spec) [] with
  | error e => rfl
  | ok vs => rw [ok_bind, Decode.rows_value]

theorem restrictAll_withResult (q : Query) (ps : List Predicate) (result : ResultKind) :
    restrictAll (q.withResult result) ps = (restrictAll q ps).withResult result := by
  induction ps generalizing q with
  | nil => rfl
  | cons p ps ih => exact ih (q.restrictAlso p)

theorem restrictAll_distinct (q : Query) (ps : List Predicate) :
    (restrictAll q ps).distinct = q.distinct ∧ (restrictAll q ps).groupBy = q.groupBy := by
  induction ps generalizing q with
  | nil => exact ⟨rfl, rfl⟩
  | cons p ps ih => exact ih (q.restrictAlso p)

section
variable {vs : List Value} (hs : o.session.answers = none) (hf : o.session.store.failure = none)
  (henabled : x.config.augmentationEnabled = true)
  (h : ∀ a ∈ x.augmentors, a.Filters x.entity x.root (condition a))
  (hfits : ∀ a ∈ x.augmentors, Fits o.session.store.tables x.root (condition a))
  (hsort : ∀ cs, matched o.session.store.tables (x.plain spec) [] = .ok cs →
    Sortable [] (x.plain spec).orders cs)
include hs hf henabled h hfits hsort

theorem found_filtered_error {α : Type} {e : SessionError}
    (hplain : execute o.session.store.tables (x.plain spec) [] = .error e) (decode : Decode α) :
    ∃ e', (x.found decode spec none).outcome o = .error e' := by
  rw [gives_found_filtered hs hf henabled h]
  cases hws : execute o.session.store.tables
    (restrictAll (x.plain spec) (x.augmentors.map condition)) [] with
  | error e' => exact ⟨.session e', rfl⟩
  | ok ws =>
    obtain ⟨vs, hvs, -⟩ := (execute_filtered h hfits hsort ws).1 hws
    rw [hplain] at hvs
    cases hvs

theorem found_filtered {α : Type} (hplain : execute o.session.store.tables (x.plain spec) [] = .ok vs)
    (decode : Decode α) : (x.found decode spec none).outcome o =
      (Decode.rows decode (vs.filter (x.admitted condition))).mapError .session := by
  rw [gives_found_filtered hs hf henabled h,
    (execute_filtered h hfits hsort _).2 ⟨vs, hplain, rfl⟩]
  rfl

theorem count_filtered (hplain : execute o.session.store.tables (x.plain spec) [] = .ok vs)
    (hspec : (Specification.whenGiven spec).Blind)
    (hgroups : (x.plain spec).distinct = true → (x.plain spec).groupBy = [])
    (hlength : (vs.filter (x.admitted condition)).length < 2 ^ 63) (mode : QueryMode) :
    (x.count spec mode).outcome o = .ok (vs.filter (x.admitted condition)).length := by
  obtain ⟨hdistinct, hgroupBy⟩ := restrictAll_distinct (x.contextOf .entity spec .find).query
    (x.augmentors.map condition)
  have hws := (execute_filtered h hfits hsort _).2 ⟨vs, hplain, rfl⟩
  rw [(x.gives_count spec hs hf mode o rfl).1, built_filtered henabled h, ok_bind,
    contextOf_runFor hspec]
  rw [plain, ← selected_restrictAll] at hws
  obtain ⟨e, hrows, -⟩ | ⟨us, hrows, hcount⟩ := execute_counted o.session.store.tables
    (q := restrictAll (x.contextOf .entity spec .find).query (x.augmentors.map condition)) x.root
    .long [] (by rw [hdistinct, hgroupBy]; exact hgroups)
  · rw [hws] at hrows
    cases hrows
  · rw [hws] at hrows
    cases hrows
    rw [← restrictAll_withResult] at hcount
    exact hcount hlength

end

end

/-- Filters compose to the conjunction of their conditions in any order: what is found are those of
the rows found without augmentors that all conditions admit, in the same order, and their number is
counted in all modes. For the two to agree the specification has to make the same of a query
whatever it is to answer, and may not both group and ask for different rows; no list of rows in
memory is too long for a count. -/
theorem found_eq_filter_admitted {α : Type} (x : Executor) (spec : Option Specification)
    (condition : Augmentor → Predicate) (decode : Decode α) (o : ObservedSession)
    (hs : o.session.answers = none) (henabled : x.config.augmentationEnabled = true)
    (hfilters : ∀ a ∈ x.augmentors, a.Filters x.entity x.root (condition a))
    (hfits : ∀ a ∈ x.augmentors, Fits o.session.store.tables x.root (condition a))
    (hsort : ∀ cs, matched o.session.store.tables (x.plain spec) [] = .ok cs →
      Sortable [] (x.plain spec).orders cs) :
    let rows := ((x.withAugmentors []).found Decode.value spec none).outcome o
    let kept := fun vs : List Value => vs.filter (x.admitted condition)
    (∃ e, rows = .error e ∧ ∀ as, as.Perm x.augmentors →
        ∃ e', ((x.withAugmentors as).found decode spec none).outcome o = .error e') ∨
      ∃ vs, rows = .ok vs ∧ ∀ as, as.Perm x.augmentors →
        ((x.withAugmentors as).found decode spec none).outcome o =
            (Decode.rows decode (kept vs)).mapError .session ∧
          ((Specification.whenGiven spec).Blind →
            ((x.plain spec).distinct = true → (x.plain spec).groupBy = []) →
            (kept vs).length < 2 ^ 63 → ∀ mode,
              ((x.withAugmentors as).count spec mode).outcome o = .ok (kept vs).length) := by
  intro rows kept
  cases hf : o.session.store.failure with
  | some reason =>
    obtain ⟨e, he⟩ := found_of_failure (x.withAugmentors []) hs hf Decode.value spec none
    exact .inl ⟨e, he, fun as _ => found_of_failure (x.withAugmentors as) hs hf decode spec none⟩
  | none =>
    have hrows : rows = _ := found_without hs hf henabled spec
    have hadmitted : ∀ {as : List Augmentor}, as.Perm x.augmentors →
        (x.withAugmentors as).admitted condition = x.admitted condition :=
      fun hperm => funext fun v => hperm.all_eq
    cases hplain : execute o.session.store.tables (x.plain spec) [] with
    | error e =>
      refine .inl ⟨.session e, by rw [hrows, hplain]; rfl, fun as hperm => ?_⟩
      exact found_filtered_error (x := x.withAugmentors as) hs hf henabled
        (fun a ha => hfilters a (hperm.mem_iff.1 ha)) (fun a ha => hfits a (hperm.mem_iff.1 ha))
        hsort hplain decode
    | ok vs =>
      refine .inr ⟨vs, by rw [hrows, hplain]; rfl, fun as hperm => ?_⟩
      have hfilters' := fun a ha => hfilters a (hperm.mem_iff.1 ha)
      have hfits' := fun a ha => hfits a (hperm.mem_iff.1 ha)
      have hfound := found_filtered (x := x.withAugmentors as) hs hf henabled hfilters' hfits' hsort
        hplain decode
      have hcount := count_filtered (x := x.withAugmentors as) hs hf henabled hfilters' hfits' hsort
        hplain
      rw [hadmitted hperm] at hfound hcount
      exact ⟨hfound, hcount⟩

/-- Names that start with `a` in one tenant, from the last to the first. -/
theorem found_eq_filter_admitted_tenant :
    let path (root : Option Root) (attr : String) : Expression :=
      .path ⟨(root.map (·.aliasName)).getD "", some attr⟩
    let tenant := Augmentor.rewriting "tenant" [.restrictAlso fun root _ =>
      .comparison .eq (path root "tenant") (.literal (.integer 7))]
    let named := Augmentor.rewriting "named" [.restrictAlso fun root _ =>
      .like (path root "name") (.literal (.string "a%"))]
    let x : Executor := { entity := .ofName "E" "id" .integer, augmentors := [tenant, named] }
    let spec : Specification := fun root q =>
      (none, ((q.addRoot "F").1.setDistinct true).orderedBy [⟨.path (root.get "id"), .desc⟩])
    let row (id tenant : Int) (name : String) : Value := .object
      [("id", .integer id), ("name", .string name), ("tenant", .integer tenant)]
    let o : ObservedSession := { session := { store := { tables :=
      [("E", [row 1 7 "ann", row 2 8 "ann", row 3 7 "bob", row 4 7 "al"]),
        ("F", [.null, .null])] } } }
    let ids : Decode Int := fun v => (v.member? "id").elim (.error "missing field id") Decode.long
    (x.found ids (some spec) none).outcome o = .ok [4, 1] ∧
      ((x.withAugmentors [named, tenant]).found ids (some spec) none).outcome o = .ok [4, 1] ∧
      (x.count (some spec) .exists).outcome o = .ok 2 ∧
      ((x.withAugmentors [named, tenant]).count (some spec) .exists).outcome o = .ok 2 := by
  intro path tenant named x spec row o ids
  let condition (a : Augmentor) : Predicate :=
    if a.name = "tenant" then .comparison .eq (path x.root "tenant") (.literal (.integer 7))
    else .like (path x.root "name") (.literal (.string "a%"))
  have hfilters : ∀ a ∈ x.augmentors, a.Filters x.entity x.root (condition a) := by
    intro a ha
    obtain rfl | ha := List.mem_cons.1 ha
    · exact Augmentor.filters_rewriting _ (fun _ => rfl) (by decide +kernel)
    · obtain rfl := List.mem_singleton.1 ha
      exact Augmentor.filters_rewriting _ (fun _ => rfl) (by decide +kernel)
  have hfits : ∀ a ∈ x.augmentors, Fits o.session.store.tables x.root (condition a) := by
    intro a ha
    refine fits_of_isOk ?_
    revert a
    decide +kernel
  have hsort : ∀ cs, matched o.session.store.tables (x.plain (some spec)) [] = .ok cs →
      Sortable [] (x.plain (some spec)).orders cs := by
    intro cs hcs
    have hsortable : (matched o.session.store.tables (x.plain (some spec)) []).map
        (fun cs => decide (Sortable [] (x.plain (some spec)).orders cs)) = .ok true := by
      decide +kernel
    rw [hcs] at hsortable
    exact of_decide_eq_true (Except.ok.inj hsortable)
  have hblind : (Specification.whenGiven (some spec)).Blind := by
    intro root q result
    have hroot := q.addRoot_withResult result "F"
    show (none, (((q.withResult result).addRoot "F").1.setDistinct true).orderedBy _) = _
    rw [hroot]
    rfl
  have hrows : (((x.withAugmentors []).found Decode.value (some spec) none).outcome o).map
      (fun vs => (Decode.rows ids (vs.filter (x.admitted condition)),
        (vs.filter (x.admitted condition)).length)) = .ok (.ok [4, 1], 2) := by
    decide +kernel
  obtain ⟨e, he, -⟩ | ⟨vs, hvs, hall⟩ :=
    found_eq_filter_admitted x (some spec) condition ids o rfl rfl hfilters hfits hsort
  · rw [he] at hrows
    cases hrows
  · rw [hvs] at hrows
    obtain ⟨hids, hlength⟩ := Prod.mk.inj (Except.ok.inj hrows)
    obtain ⟨hfound, hcount⟩ := hall x.augmentors (.refl _)
    obtain ⟨hfound', hcount'⟩ := hall [named, tenant] (.swap _ _ _)
    have hlt : (vs.filter (x.admitted condition)).length < 2 ^ 63 := by omega
    have hn := hcount hblind (fun _ => rfl) hlt .exists
    have hn' := hcount' hblind (fun _ => rfl) hlt .exists
    rw [hids] at hfound hfound'
    rw [hlength] at hn hn'
    exact ⟨hfound, hfound', hn, hn'⟩

/-- What is found and counted through a filter that admits all rows but the second. A configuration
can leave augmentors out. Numbers of two kinds do not sort consistently, so the rows that are left
can change places. A row that is no result of the type asked for is one failure less when it is
filtered out. Different rows of several groups are counted once in each, and a specification can
make another query for the count than for the rows. -/
theorem found_ne_filter_admitted :
    let size := 2 ^ 53
    let row (id : Int) (k : Value) : Value := .object [("id", .integer id), ("k", k)]
    let double : Double := ⟨false, 2 ^ 52, 1, by decide, by decide, .inl (by decide)⟩
    let o : ObservedSession := { session := { store := { tables :=
      [("E", [row 1 (.integer (size + 1)), row 2 (.number (.double double)), row 3 (.integer size)]),
        ("F", [.integer 1, .integer 2])] } } }
    let attr (name : String) : Decode Int :=
      fun v => (v.member? name).elim (.error "missing field") Decode.long
    let other := Augmentor.rewriting "other" [.restrictAlso fun root _ =>
      .comparison .ne (.path ⟨(root.map (·.aliasName)).getD "", some "id"⟩) (.literal (.integer 2))]
    let x : Executor := { entity := .ofName "E" "id" .integer, augmentors := [other] }
    let disabled : Executor := { x with config := { augmentationEnabled := false } }
    let plain := x.withAugmentors []
    let sorted : Specification := fun root q =>
      (none, q.orderedBy [⟨.path (root.get "k"), .asc⟩])
    let grouped : Specification := fun _ q =>
      let (q, other) := q.addRoot "F"
      (none, (q.groupedBy [.path other.path]).setDistinct true)
    let biased : Specification := fun _ q =>
      (if q.result = .long then some .never else none, q)
    (plain.found (attr "id") none none).outcome o = .ok [1, 2, 3] ∧
      (x.found (attr "id") none none).outcome o = .ok [1, 3] ∧
      (disabled.found (attr "id") none none).outcome o = .ok [1, 2, 3] ∧
      (plain.found (attr "id") (some sorted) none).outcome o = .ok [1, 2, 3] ∧
      (x.found (attr "id") (some sorted) none).outcome o = .ok [3, 1] ∧
      (plain.found (attr "k") none none).outcome o =
        .error (.session (.mapping "expected an integer")) ∧
      (x.found (attr "k") none none).outcome o = .ok [size + 1, size] ∧
      (x.found (attr "id") (some grouped) none).outcome o = .ok [1, 3] ∧
      (x.count (some grouped) .count).outcome o = .ok 4 ∧
      (x.found (attr "id") (some biased) none).outcome o = .ok [1, 3] ∧
      (x.count (some biased) .count).outcome o = .ok 0 := by
  decide +kernel

end Executor

end EntityQuery
