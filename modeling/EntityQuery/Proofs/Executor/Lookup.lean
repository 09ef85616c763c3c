import EntityQuery.Proofs.Executor.Counting
/-! Looking a row up by its identifier. It takes what the entity's identifiers are compared with,
finds the rows that have it, and recovers from there being none. -/
namespace EntityQuery
open Criteria Evaluation

/-- Whether a row has an identifier: the value that the identifier's path leads to is not null and
equal to it. -/
def Entity.identifies (e : Entity) (id row : Value) : Bool :=
  !(attributeValue row e.idAttribute).isNull && (attributeValue row e.idAttribute).same id

theorem Evaluation.resolve_get {c : Combination} {root : Root} {v : Value}
    (h : row c root.aliasName = .ok v) (b : Bindings) (attr : String) :
    resolve b c (.path (root.get attr)) = .ok (attributeValue v attr) := by
  rw [resolve, show (root.get attr).aliasName = root.aliasName from rfl, h]
  rfl

theorem Entity.identifies_null (e : Entity) (row : Value) : e.identifies .null row = false := by
  unfold identifies
  cases attributeValue row e.idAttribute <;> rfl

theorem Entity.holds_eq (e : Entity) (id row : Value) :
    holds .eq (attributeValue row e.idAttribute) id = e.identifies id row := by
  cases id with
  | null =>
    rw [e.identifies_null]
    simp [holds, Value.isNull]
  | _ =>
    unfold holds identifies
    cases attributeValue row e.idAttribute <;> rfl

namespace Executor
variable (x : Executor)

def lookup (result : ResultKind) (root : Root) : Query where
  result
  roots := [root]
  restriction := some (.comparison .eq (.path (root.get x.entity.idAttribute))
    (.parameter x.idParameter))

section
variable {x : Executor} {s : Session} {result : ResultKind} {root : Root} {sel : Selection}
  {vs : List Value} {tables : Tables}

/-- Augmentors that do not support the entity leave its queries alone. -/
theorem augmented_of_unsupported
    (h : ∀ a ∈ x.augmentors, ∀ mode, a.supports .criteria mode x.entity = false)
    {c : CriteriaContext} (hc : c.entity = x.entity) : x.augmented c = .ok c := by
  have hnone : Augmentation.supporting x.augmentors .criteria c.mode c.entity = [] := by
    refine List.filter_eq_nil_iff.2 fun a ha => ?_
    rw [hc, h a ha]
    exact Bool.false_ne_true
  unfold augmented Augmentation.onCriteria
  rw [hnone]
  split <;> rfl

theorem built_byId (h : ∀ a ∈ x.augmentors, ∀ mode, a.supports .criteria mode x.entity = false)
    (result : ResultKind) (mode : QueryMode) : ∃ root, root.entity = x.entity.type ∧
      x.built result (some x.byId) mode = .ok (x.lookup result root, root) := by
  refine ⟨(Query.addRoot { result } x.entity.type).2, rfl, ?_⟩
  unfold built
  rw [augmented_of_unsupported h rfl]
  rfl

theorem valid_lookup (hroot : Dictionary.get? root.entity tables = some vs)
    (hsel : sel = .root root.aliasName ∨ sel = .count root.aliasName false) :
    Valid tables ((x.lookup result root).select sel) := by
  refine ⟨List.cons_ne_nil _ _, fun r hr => ?_, fun a ha => ?_⟩
  · rw [List.mem_singleton.1 hr]
    exact Option.isSome_iff_exists.2 ⟨vs, hroot⟩
  · have halias : a ∈ [root.aliasName, root.aliasName] := by
      rcases hsel with rfl | rfl <;> exact ha
    obtain rfl : a = root.aliasName := by simpa using halias
    exact List.any_eq_true.2 ⟨root, .head _, beq_self_eq_true _⟩

/-- The rows that are looked up are those that the entity identifies by the value bound. -/
theorem tuples_lookup (result : ResultKind)
    (hvalid : Valid tables ((x.lookup result root).select sel))
    (hroot : Dictionary.get? root.entity tables = some vs) (id : Value) :
    tuples tables ((x.lookup result root).select sel) [(.identifier, id)] =
      .ok ((vs.filter (x.entity.identifies id)).map fun v => [(root, v)]) := by
  have hholds : ∀ c ∈ vs.map fun v => [(root, v)],
      satisfies [(.identifier, id)] c (.comparison .eq
          (.path (root.get x.entity.idAttribute)) (.parameter x.idParameter)) =
        .ok (x.entity.identifies id ((c.map (·.2)).headD .null)) := by
    intro c hc
    obtain ⟨v, -, rfl⟩ := List.mem_map.1 hc
    have hrow : row [(root, v)] root.aliasName = .ok v := by
      rw [row, List.find?_cons_of_pos (by simp)]
    rw [satisfies, resolve_get hrow, ok_bind, ← x.entity.holds_eq]
    rfl
  rw [tuples, matched, validate_eq_ok_iff.2 hvalid]
  show (combinations tables [root] >>= satisfying _ _) >>= sorted _ [] = _
  rw [combinations_singleton hroot, ok_bind, satisfying_eq_filter hholds, ok_bind,
    List.filter_map]
  rfl

theorem execute_lookup (result : ResultKind)
    (hroot : Dictionary.get? root.entity tables = some vs) (id : Value) :
    execute tables (selected none (x.lookup result root) root) [(.identifier, id)] =
      .ok (vs.filter (x.entity.identifies id)) := by
  have htuples := tuples_lookup (x := x) result (valid_lookup hroot (.inl rfl)) hroot id
  rw [execute_eq]
  show tuples tables ((x.lookup result root).select (.root root.aliasName)) _ >>= _ = _
  rw [htuples, ok_bind]
  have hanswers : ((vs.filter (x.entity.identifies id)).map fun v => [(root, v)]).mapM
      (answer · (some root.aliasName)) = .ok (vs.filter (x.entity.identifies id)) := by
    refine mapM_eq_ok_iff.2 (List.forall₂_map_left_iff.2 (List.forall₂_same.2 fun v _ => ?_))
    rw [answer, row, List.find?_cons_of_pos (by simp)]
  show rows _ (some root.aliasName) false = _
  rw [rows, hanswers]
  rfl

theorem bind_lookup {p : PreparedQuery}
    (hp : p.plan = .stored ((x.lookup result root).select sel) none [] []) (id : Value) :
    p.bind x.idParameter id =
      if x.entity.idType.accepts id then
        .ok ⟨.stored ((x.lookup result root).select sel) none [] [(.identifier, id)], p.lock,
          p.hints⟩
      else .error (.invalidParameterValue x.idParameter.label x.entity.idType) := by
  have hdeclared : ((x.lookup result root).select sel).parameters.find?
      (·.id = x.idParameter.id) = some x.idParameter :=
    List.find?_cons_of_pos (decide_eq_true rfl)
  rw [PreparedQuery.bind, hp]
  dsimp only
  rw [hdeclared]
  rfl

theorem gives_bound {α : Type} {y : Run PreparedQuery} {f : PreparedQuery → Run α}
    {r : Except QueryError α} (hs : s.answers = none)
    (hvalid : Valid s.store.tables ((x.lookup result root).select sel))
    (hy : Run.Gives y s (x.prepared s ((x.lookup result root).select sel))) (id : Value)
    (hf : x.entity.idType.accepts id = true → ∀ p : PreparedQuery,
      p.plan = .stored ((x.lookup result root).select sel) none [] [(.identifier, id)] →
        Run.Gives (f p) s r) :
    Run.Gives (do f (← Run.ofSession ((← y).bind x.idParameter id))) s
      (if x.entity.idType.accepts id then r
        else .error (.session (.invalidParameterValue x.idParameter.label x.entity.idType))) := by
  obtain ⟨p, hp, hplan⟩ := exists_prepared (x := x) hs hvalid
  rw [hp] at hy
  refine hy.bind_of_ok ?_
  rw [bind_lookup hplan]
  split
  · rename_i haccepts
    exact (Run.Gives.ofSession _).bind_of_ok (hf haccepts _ rfl)
  · exact (Run.Gives.ofSession (Except.error _)).bind (g := fun _ => r) fun a ha => by cases ha

end

def looked (id : Value) : Run (List Value) := do
  Run.rows (← Run.ofSession ((← x.query (some x.byId) none).bind x.idParameter id))

theorem looked_bind {α : Type} (id : Value) (f : List Value → Run α) :
    x.looked id >>= f = (do
      let q ← x.query (some x.byId) none
      let q ← Run.ofSession (q.bind x.idParameter id)
      f (← Run.rows q)) := by
  simp only [looked, bind_assoc]

theorem findOne_eq {α : Type} (decode : Decode α) (id : Value) :
    x.findOne decode id = x.looked id >>= fun vs =>
      match single vs with
      | .ok v => do return some (← Run.ofSession (Decode.row decode v))
      | .error .noResult => do
        Run.note .findOneEmpty [("entity", x.entity.name)]
        Run.count Metrics.noteMiss
        return none
      | .error e => throw (.session e) :=
  (x.looked_bind id _).symm

section
variable {x : Executor} {s : Session} {vs : List Value}

theorem gives_looked (hs : s.answers = none) (hf : s.store.failure = none)
    (htable : Dictionary.get? x.entity.type s.store.tables = some vs)
    (haug : ∀ a ∈ x.augmentors, ∀ mode, a.supports .criteria mode x.entity = false) (id : Value) :
    Run.Gives (x.looked id) s (if x.entity.idType.accepts id then
        .ok (vs.filter (x.entity.identifies id))
      else .error (.session (.invalidParameterValue x.idParameter.label x.entity.idType))) := by
  obtain ⟨root, hroot, hbuilt⟩ := built_byId haug .entity .find
  rw [← hroot] at htable
  have hquery := x.gives_query (some x.byId) s none
  rw [hbuilt] at hquery
  refine gives_bound hs (valid_lookup htable (.inl rfl)) hquery id fun _ p hp => ?_
  have hrows := Run.Gives.rows (q := p) hf
  have hexecute : execute s.store.tables ((x.lookup .entity root).select (.root root.aliasName))
      [(.identifier, id)] = _ := execute_lookup .entity htable id
  rwa [PreparedQuery.rows_eq hf hp, hexecute] at hrows

theorem gives_countById (hs : s.answers = none) (hf : s.store.failure = none)
    (htable : Dictionary.get? x.entity.type s.store.tables = some vs)
    (haug : ∀ a ∈ x.augmentors, ∀ mode, a.supports .criteria mode x.entity = false) (id : Value)
    (mode : QueryMode) (hlength : x.entity.idType.accepts id = true →
      (vs.filter (x.entity.identifies id)).length < 2 ^ 63) :
    Run.Gives (x.countById id mode) s (if x.entity.idType.accepts id then
        .ok (vs.filter (x.entity.identifies id)).length
      else .error (.session (.invalidParameterValue x.idParameter.label x.entity.idType))) := by
  obtain ⟨root, hroot, hbuilt⟩ := built_byId haug .long mode
  rw [← hroot] at htable
  have hquery := x.gives_countQuery (some x.byId) s mode
  rw [hbuilt] at hquery
  refine gives_bound hs (valid_lookup htable (.inr rfl)) hquery id fun haccepts p hp => ?_
  have hcount := x.gives_runCount hf p
  have htotal : ((execute s.store.tables ((x.lookup .long root).select
      (.count root.aliasName false)) [(.identifier, id)]).mapError .session >>= summed) =
        .ok (vs.filter (x.entity.identifies id)).length := by
    obtain ⟨e, hrows, -⟩ | ⟨found, hrows, hn⟩ := execute_counted s.store.tables
      (q := x.lookup .long root) root .long [(.identifier, id)] (fun h => by cases h)
    · rw [execute_lookup .long htable id] at hrows
      cases hrows
    · rw [execute_lookup .long htable id] at hrows
      cases hrows
      exact hn (hlength haccepts)
  rwa [PreparedQuery.rows_eq hf hp, htotal] at hcount

end

section
variable {x : Executor}

abbrev misses (o : ObservedSession) : UInt64 := o.metrics.findOneMisses

theorem keeps_augment {γ : Type} {f : Metrics → γ} (hf : ∀ m n, f (m.noteAugmentations n) = f m)
    (c : CriteriaContext) : Run.Keeps (fun o => f o.metrics) (x.augment c) := by
  unfold augment
  split
  · exact .bind (.of_modify fun _ => rfl) fun _ => .pure c
  · exact .bind (.of_modify fun o => by rw [o.noteApplied_metrics, hf]) fun _ => .lift _

theorem keeps_build {γ : Type} {f : Metrics → γ} (hf : ∀ m n, f (m.noteAugmentations n) = f m)
    (result : ResultKind) (spec : Option Specification) (mode : QueryMode) :
    Run.Keeps (fun o => f o.metrics) (x.build result spec mode) := by
  refine .bind (keeps_augment hf _) fun c => ?_
  split
  · exact .pure _
  · exact .throw _

theorem metrics_prepare (x : Executor) (event : Event) (note : Metrics → Metrics) (q : Query)
    (o : ObservedSession) : ((x.prepare event note q).after o).metrics = note o.metrics := by
  have hrest : Run.Keeps ObservedSession.metrics (do
      let s := (← get).session
      return x.withMethod s (← Run.ofSession (s.prepare q))) :=
    .bind .get fun _ => .bind (.ofSession _) fun _ => .pure _
  unfold prepare
  split
  · exact hrest _
  · exact hrest { o with metrics := note o.metrics }

theorem keeps_looked (id : Value) : Run.Keeps misses (x.looked id) := by
  have hbuild := keeps_build (x := x) (f := Metrics.findOneMisses) (fun _ _ => rfl) .entity
    (some x.byId) .find
  have hprepare : ∀ q, Run.Keeps misses (x.prepare .queryBuilt Metrics.noteQuery q) :=
    fun q o => by rw [misses, metrics_prepare]; rfl
  refine .bind (.bind hbuild fun b => hprepare _) fun p => .bind (.ofSession _) fun q => ?_
  exact .bind .get fun o => .bind (.of_modify fun _ => rfl) fun _ => .ofSession _

section
variable {o : ObservedSession} {id : Value}

theorem findOne_of_none (h : (x.looked id).outcome o = .ok []) :
    (x.findOne Decode.value id).outcome o = .ok none ∧
      misses ((x.findOne Decode.value id).after o) = misses o + 1 := by
  rw [findOne_eq, (Run.bind_of_ok h).1, (Run.bind_of_ok h).2, ← keeps_looked id o]
  exact ⟨rfl, rfl⟩

theorem findOne_of_one {v : Value} (h : (x.looked id).outcome o = .ok [v]) :
    (x.findOne Decode.value id).outcome o = .ok (some v) ∧
      misses ((x.findOne Decode.value id).after o) = misses o := by
  rw [findOne_eq, (Run.bind_of_ok h).1, (Run.bind_of_ok h).2, ← keeps_looked id o]
  exact ⟨rfl, rfl⟩

theorem findOne_of_many {vs : List Value} (hmany : 1 < vs.length)
    (h : (x.looked id).outcome o = .ok vs) :
    (x.findOne Decode.value id).outcome o = .error (.session (.nonUniqueResult vs.length)) ∧
      misses ((x.findOne Decode.value id).after o) = misses o := by
  obtain _ | ⟨v, _ | ⟨w, rest⟩⟩ := vs
  · simp at hmany
  · simp at hmany
  · rw [findOne_eq, (Run.bind_of_ok h).1, (Run.bind_of_ok h).2, ← keeps_looked id o]
    exact ⟨rfl, rfl⟩

theorem findOne_of_error {e : QueryError} (h : (x.looked id).outcome o = .error e) :
    (x.findOne Decode.value id).outcome o = .error e := by
  rw [findOne_eq]
  exact (Run.bind_of_error h).1

end

/-- Of a look-up only the absence of a row is recovered, and counted as a miss; what the entity
does not accept as identifier and an identifier of several rows are errors. The count by identifier
tells the number of rows in all modes; no list of rows in memory is too long for it. -/
theorem findOne_recovers_only_absence (x : Executor) (o : ObservedSession) (id : Value)
    (mode : QueryMode) (vs : List Value) (hs : o.session.answers = none)
    (hf : o.session.store.failure = none)
    (htable : Dictionary.get? x.entity.type o.session.store.tables = some vs)
    (haug : ∀ a ∈ x.augmentors, ∀ kind mode, a.supports kind mode x.entity = false) :
    let found := vs.filter (x.entity.identifies id)
    let result := (x.findOne Decode.value id).outcome o
    let after := (x.findOne Decode.value id).after o
    let invalid := SessionError.invalidParameterValue x.idParameter.label x.entity.idType
    (x.entity.idType.accepts id = false →
        result = .error (.session invalid) ∧
        (x.countById id mode).outcome o = .error (.session invalid)) ∧
      (x.entity.idType.accepts id = true →
        (found.length = 0 → result = .ok none ∧ misses after = misses o + 1) ∧
        (∀ v, found = [v] → result = .ok (some v) ∧ misses after = misses o) ∧
        (1 < found.length → result = .error (.session (.nonUniqueResult found.length)) ∧
          misses after = misses o) ∧
        (found.length < 2 ^ 63 → (x.countById id mode).outcome o = .ok found.length)) ∧
      (id = .null → x.entity.idType.accepts id = true ∧ found = []) := by
  intro found result after invalid
  have hcriteria : ∀ a ∈ x.augmentors, ∀ mode, a.supports .criteria mode x.entity = false :=
    fun a ha => haug a ha .criteria
  obtain ⟨hlooked, -⟩ := gives_looked hs hf htable hcriteria id o rfl
  refine ⟨fun haccepts => ?_, fun haccepts => ?_, fun hnull => ?_⟩
  · rw [haccepts] at hlooked
    have hcount := (gives_countById hs hf htable hcriteria id mode
      (fun h => absurd h (by simp [haccepts])) o rfl).1
    rw [haccepts] at hcount
    exact ⟨findOne_of_error hlooked, hcount⟩
  · rw [if_pos haccepts] at hlooked
    refine ⟨fun hnone => ?_, fun v hone => ?_, fun hmany => findOne_of_many hmany hlooked,
      fun hlength => ?_⟩
    · have hnil : vs.filter (x.entity.identifies id) = [] := List.length_eq_zero_iff.1 hnone
      rw [hnil] at hlooked
      exact findOne_of_none hlooked
    · rw [show vs.filter (x.entity.identifies id) = [v] from hone] at hlooked
      exact findOne_of_one hlooked
    · have hcount := (gives_countById hs hf htable hcriteria id mode (fun _ => hlength) o rfl).1
      rwa [if_pos haccepts] at hcount
  · subst hnull
    refine ⟨?_, List.filter_eq_nil_iff.2 fun v _ => ?_⟩
    · cases x.entity.idType <;> rfl
    · rw [x.entity.identifies_null]
      exact Bool.false_ne_true

/-- Keys are one object deep, and two rows share one. -/
theorem findOne_recovers_only_absence_nested :
    let keyed (k : String) : Value := .object [("key", .object [("id", .string k)])]
    let x : Executor := {
      entity := .ofName "E" "key.id" .string
      augmentors := [{ name := "other", supports := fun _ _ e => e.name = "F" }] }
    let o : ObservedSession := { session := { store := { tables :=
      [("E", [keyed "a", keyed "b", .object [], keyed "b"])] } } }
    (x.findOne Decode.value (.integer 1)).outcome o =
        .error (.session (.invalidParameterValue "<id>" .string)) ∧
      (x.findOne Decode.value (.string "a")).outcome o = .ok (some (keyed "a")) ∧
      (x.findOne Decode.value (.string "b")).outcome o = .error (.session (.nonUniqueResult 2)) ∧
      (x.findOne Decode.value .null).outcome o = .ok none ∧
      (x.countById (.string "b") .exists).outcome o = .ok 2 := by
  intro keyed x o
  have hall := fun id => findOne_recovers_only_absence x o id .exists
    [keyed "a", keyed "b", .object [], keyed "b"] rfl rfl rfl
    (fun a ha _ _ => by
      rw [List.mem_singleton.1 ha]
      exact (by decide : decide ("E" = "F") = false))
  have hone : [keyed "a", keyed "b", .object [], keyed "b"].filter
      (x.entity.identifies (.string "a")) = [keyed "a"] := by cbv
  have htwo : ([keyed "a", keyed "b", .object [], keyed "b"].filter
      (x.entity.identifies (.string "b"))).length = 2 := by decide +kernel
  obtain ⟨-, -, hmany, hcount⟩ := (hall (.string "b")).2.1 rfl
  rw [htwo] at hmany hcount
  refine ⟨((hall _).1 rfl).1, (((hall _).2.1 rfl).2.1 (keyed "a") hone).1,
    (hmany (by decide)).1, ?_, hcount (by decide)⟩
  obtain ⟨haccepts, hnil⟩ := (hall .null).2.2 rfl
  exact (((hall .null).2.1 haccepts).1 (by rw [hnil]; rfl)).1

end

end Executor

end EntityQuery
