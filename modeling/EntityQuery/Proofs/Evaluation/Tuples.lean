import EntityQuery.Proofs.Evaluation.Condition
import EntityQuery.Proofs.StableSort.Sort
/-! The combinations that a query answers from: they have a row for each source, and neither the
restriction nor the order brings in others. -/
namespace EntityQuery.Evaluation
open Criteria

section
variable {tables : Tables} {roots : List Root} {b : Bindings} {p : Predicate}
  {cs ds : List Combination}

theorem sources_of_mem_combinations (h : combinations tables roots = .ok cs) :
    ∀ c ∈ cs, c.map (·.1) = roots := by
  induction roots generalizing cs with
  | nil =>
    cases h
    simp
  | cons root roots ih =>
    rw [combinations] at h
    split at h
    · cases h
    · obtain ⟨more, hmore, h⟩ := bind_eq_ok_iff.1 h
      cases h
      intro c hc
      obtain ⟨v, -, hc⟩ := List.mem_flatMap.1 hc
      obtain ⟨d, hd, rfl⟩ := List.mem_map.1 hc
      rw [List.map_cons, ih hmore d hd]

theorem combinations_singleton {root : Root} {vs : List Value}
    (h : Dictionary.get? root.entity tables = some vs) :
    combinations tables [root] = .ok (vs.map fun v => [(root, v)]) := by
  rw [combinations, h, ← List.flatMap_pure_eq_map]
  rfl

theorem satisfying_append : satisfying b p (cs ++ ds) = (do
    let xs ← satisfying b p cs
    let ys ← satisfying b p ds
    return xs ++ ys) := by
  induction cs with
  | nil =>
    rw [List.nil_append, satisfying, ok_bind]
    cases satisfying b p ds <;> rfl
  | cons c rest ih =>
    rw [List.cons_append, satisfying, satisfying, ih]
    cases satisfies b c p with
    | error e => rfl
    | ok keep =>
      cases satisfying b p rest with
      | error e => rfl
      | ok xs =>
        cases satisfying b p ds with
        | error e => rfl
        | ok ys => cases keep <;> rfl

theorem satisfying_eq_filter {f : Combination → Bool} (h : ∀ c ∈ cs, satisfies b c p = .ok (f c)) :
    satisfying b p cs = .ok (cs.filter f) := by
  induction cs with
  | nil => rfl
  | cons c rest ih =>
    rw [satisfying, h c (.head _), ih fun d hd => h d (.tail _ hd), List.filter_cons]
    cases f c <;> rfl

theorem satisfying_eq_ok (h : satisfying b p cs = .ok ds) :
    ds = cs.filter fun c => decide (satisfies b c p = .ok true) := by
  induction cs generalizing ds with
  | nil =>
    cases h
    rfl
  | cons c rest ih =>
    obtain ⟨keep, hkeep, h⟩ := bind_eq_ok_iff.1 h
    obtain ⟨more, hmore, h⟩ := bind_eq_ok_iff.1 h
    cases h
    rw [ih hmore, List.filter_cons, hkeep]
    cases keep <;> rfl

theorem satisfying_sublist (h : satisfying b p cs = .ok ds) : ds.Sublist cs := by
  rw [satisfying_eq_ok h]
  exact List.filter_sublist

theorem matching_sublist {restriction : Option Predicate} (h : matching b restriction cs = .ok ds) :
    ds.Sublist cs := by
  cases restriction with
  | none =>
    cases h
    exact .refl _
  | some p => exact satisfying_sublist h

theorem map_snd_of_keyed {α β ε : Type} {f : α → Except ε β} {xs : List α} {ks : List (β × α)}
    (h : (xs.mapM fun x => do return (← f x, x)) = .ok ks) : ks.map (·.2) = xs := by
  have hall := mapM_eq_ok_iff.1 h
  clear h
  induction hall with
  | nil => rfl
  | cons hx _ ih =>
    obtain ⟨key, -, hx⟩ := bind_eq_ok_iff.1 hx
    cases hx
    rw [List.map_cons, ih]

theorem sorted_eq_ok_iff {orders : List Order} (h : orders ≠ []) : sorted b orders cs = .ok ds ↔
    ∃ ks es, keyed b orders cs = .ok ks ∧ StableSort.sort (keyedPrecede orders) ks = some es ∧
      ds = es.map (·.2) := by
  rw [sorted, if_neg (by simpa using h)]
  cases keyed b orders cs with
  | error e => exact ⟨nofun, fun ⟨_, _, h, _⟩ => nomatch h⟩
  | ok ks =>
    rw [ok_bind]
    cases hsort : StableSort.sort (keyedPrecede orders) ks with
    | none => exact ⟨nofun, fun ⟨_, es, hks, hes, _⟩ => by cases hks; simp [hsort] at hes⟩
    | some es =>
      constructor
      · rintro ⟨⟩
        exact ⟨ks, es, rfl, hsort, rfl⟩
      · rintro ⟨ks', es', hks, hes, rfl⟩
        cases hks
        cases hsort.symm.trans hes
        rfl

theorem sorted_perm {orders : List Order} (h : sorted b orders cs = .ok ds) : ds.Perm cs := by
  by_cases horders : orders = []
  · subst horders
    cases h
    exact .refl _
  · obtain ⟨ks, es, hks, hes, rfl⟩ := (sorted_eq_ok_iff horders).1 h
    exact ((StableSort.sort_perm hes).map _).trans (.of_eq (map_snd_of_keyed hks))

end

/-- The combinations that a query sorts. -/
def matched (tables : Tables) (q : Query) (b : Bindings) : Except SessionError (List Combination) := do
  validate tables q
  if let some p := q.parameters.find? fun p => (b.value? p.id).isNone then
    throw (.unboundParameter p.label)
  matching b q.restriction (← combinations tables q.roots)

/-- The combinations that a query answers from, in order. -/
def tuples (tables : Tables) (q : Query) (b : Bindings) : Except SessionError (List Combination) :=
  matched tables q b >>= sorted b q.orders

def results (q : Query) (b : Bindings) (cs : List Combination) : Except SessionError (List Value) :=
  match q.selection with
  | some (.count a distinct) => do (← grouped b q.groupBy cs).mapM (countIn a distinct)
  | some (.root a) => rows cs (some a) q.distinct
  | none => rows cs none q.distinct

section
variable {tables : Tables} {q : Query} {b : Bindings} {cs : List Combination}

theorem execute_eq : execute tables q b = tuples tables q b >>= results q b := by
  unfold execute tuples matched
  cases validate tables q with
  | error e => rfl
  | ok u =>
    simp only [ok_bind]
    cases q.parameters.find? fun p => (b.value? p.id).isNone with
    | some p => rfl
    | none =>
      simp only [bind_assoc]
      rfl

/-- What is known once there are combinations to answer from. -/
structure Ready (tables : Tables) (q : Query) (b : Bindings) (cs : List Combination) : Prop where
  valid : Valid tables q
  bound : ∀ p ∈ q.parameters, (b.value? p.id).isSome
  sources : ∀ c ∈ cs, c.map (·.1) = q.roots

theorem matched_of_bound (hvalid : Valid tables q)
    (hbound : ∀ p ∈ q.parameters, (b.value? p.id).isSome) :
    matched tables q b = combinations tables q.roots >>= matching b q.restriction := by
  unfold matched
  rw [validate_eq_ok_iff.2 hvalid, find?_isNone_eq_none_iff.2 hbound]
  rfl

theorem matched_of_unbound (hvalid : Valid tables q) {p : Parameter}
    (h : (q.parameters.find? fun p => (b.value? p.id).isNone) = some p) :
    matched tables q b = .error (.unboundParameter p.label) := by
  unfold matched
  rw [validate_eq_ok_iff.2 hvalid, h]
  rfl

theorem tuples_of_bound (hvalid : Valid tables q)
    (hbound : ∀ p ∈ q.parameters, (b.value? p.id).isSome) : tuples tables q b = (do
      let all ← combinations tables q.roots
      let kept ← matching b q.restriction all
      sorted b q.orders kept) := by
  rw [tuples, matched_of_bound hvalid hbound, bind_assoc]

theorem tuples_of_unbound (hvalid : Valid tables q) {p : Parameter}
    (h : (q.parameters.find? fun p => (b.value? p.id).isNone) = some p) :
    tuples tables q b = .error (.unboundParameter p.label) := by
  rw [tuples, matched_of_unbound hvalid h, error_bind]

theorem matched_eq_ok (h : matched tables q b = .ok cs) : Ready tables q b cs := by
  obtain ⟨u, hu, -⟩ := bind_eq_ok_iff.1 h
  have hvalid := validate_eq_ok_iff.1 hu
  cases hunbound : q.parameters.find? fun p => (b.value? p.id).isNone with
  | some p =>
    rw [matched_of_unbound hvalid hunbound] at h
    cases h
  | none =>
    have hbound := find?_isNone_eq_none_iff.1 hunbound
    rw [matched_of_bound hvalid hbound] at h
    obtain ⟨all, hall, hkept⟩ := bind_eq_ok_iff.1 h
    exact ⟨hvalid, hbound, fun c hc =>
      sources_of_mem_combinations hall c ((matching_sublist hkept).subset hc)⟩

theorem tuples_eq_ok (h : tuples tables q b = .ok cs) : Ready tables q b cs := by
  obtain ⟨kept, hkept, hsorted⟩ := bind_eq_ok_iff.1 h
  have hready := matched_eq_ok hkept
  exact ⟨hready.valid, hready.bound, fun c hc =>
    hready.sources c ((sorted_perm hsorted).mem_iff.1 hc)⟩

theorem tuples_orderedBy_nil (h : tuples tables q b = .ok cs) :
    ∃ ds, tuples tables (q.orderedBy []) b = .ok ds ∧ cs.Perm ds := by
  have hready := tuples_eq_ok h
  obtain ⟨kept, hkept, hsorted⟩ := bind_eq_ok_iff.1 h
  have hbound : ∀ p ∈ (q.orderedBy []).parameters, (b.value? p.id).isSome := fun p hp =>
    hready.bound p (q.parameters_orderedBy_nil.subset hp)
  refine ⟨kept, ?_, sorted_perm hsorted⟩
  rw [matched_of_bound hready.valid hready.bound] at hkept
  have hunordered : matched tables (q.orderedBy []) b = .ok kept :=
    (matched_of_bound hready.valid.orderedBy_nil hbound).trans hkept
  rw [tuples, hunordered, ok_bind]
  rfl

end

section
variable {tables : Tables} {q q' : Query} {b b' : Bindings}

theorem validate_congr (hroots : q'.roots = q.roots) (h : ∀ a ∈ referredAliases q, q.hasAlias a)
    (h' : ∀ a ∈ referredAliases q', q'.hasAlias a) : validate tables q' = validate tables q := by
  have hnone : ∀ {r : Query}, (∀ a ∈ referredAliases r, r.hasAlias a) →
      (referredAliases r).find? (fun a => !r.hasAlias a) = none :=
    fun hr => List.find?_eq_none.2 fun a ha => by simpa using hr a ha
  simp only [validate, hroots, hnone h, hnone h']

theorem satisfying_congr {p p' : Predicate} (h : ∀ c, satisfies b' c p' = satisfies b c p)
    (cs : List Combination) : satisfying b' p' cs = satisfying b p cs := by
  induction cs with
  | nil => rfl
  | cons c rest ih => rw [satisfying, satisfying, h c, ih]

theorem sorted_congr {orders : List Order}
    (h : ∀ o ∈ orders, ∀ c, resolve b' c o.expression = resolve b c o.expression)
    (cs : List Combination) : sorted b' orders cs = sorted b orders cs := by
  have hkeys : ∀ c, (orders.mapM fun o => resolve b' c o.expression) =
      orders.mapM fun o => resolve b c o.expression :=
    fun c => mapM_congr fun o ho => h o ho c
  simp only [sorted, keyed, hkeys]

theorem grouped_congr {keys : List Expression}
    (h : ∀ e ∈ keys, ∀ c, resolve b' c e = resolve b c e) (cs : List Combination) :
    grouped b' keys cs = grouped b keys cs := by
  have hkeys : ∀ c, keys.mapM (resolve b' c) = keys.mapM (resolve b c) :=
    fun c => mapM_congr fun e he => h e he c
  simp only [grouped, hkeys]

theorem tuples_congr (hroots : q'.roots = q.roots) (hvalid : validate tables q' = validate tables q)
    (hbound : ∀ p ∈ q.parameters, (b.value? p.id).isSome)
    (hbound' : ∀ p ∈ q'.parameters, (b'.value? p.id).isSome)
    (hmatching : ∀ cs, matching b' q'.restriction cs = matching b q.restriction cs)
    (hsorted : ∀ cs, sorted b' q'.orders cs = sorted b q.orders cs) :
    tuples tables q' b' = tuples tables q b := by
  simp only [tuples, matched, hvalid, hroots, find?_isNone_eq_none_iff.2 hbound,
    find?_isNone_eq_none_iff.2 hbound', hmatching, funext hsorted]

theorem answer_first {r : Root} {rest : List Root} {c : Combination}
    (h : c.map (·.1) = r :: rest) : answer c (some r.aliasName) = answer c none := by
  obtain ⟨⟨x, v⟩, more, rfl, hx, -⟩ := List.map_eq_cons_iff.1 h
  obtain rfl : x = r := hx
  simp [answer, row]

theorem rows_first {r : Root} {rest : List Root} {cs : List Combination}
    (h : ∀ c ∈ cs, c.map (·.1) = r :: rest) (distinct : Bool) :
    rows cs (some r.aliasName) distinct = rows cs none distinct := by
  have hanswers : cs.mapM (answer · (some r.aliasName)) = cs.mapM (answer · none) :=
    mapM_congr fun c hc => answer_first (h c hc)
  simp only [rows, hanswers]

end

end EntityQuery.Evaluation
